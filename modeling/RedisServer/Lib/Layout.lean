import Mathlib

/-!
# Files laid out field by field

A reader keeps its place in a file and takes the fields one after another.  It undoes a
layout when, wherever in a file the layout stands, it gives back what was laid out and
stops right behind it; then readers that undo the parts undo the whole.
-/

namespace Layout

/-- A place in a file. -/
structure Cursor (β : Type) where
  file : List β
  place : Nat

/-- Reads what stands at the cursor and moves it on. -/
abbrev Reader (β ε : Type) := StateT (Cursor β) (Except ε)

variable {β ε α γ : Type} {size : Nat}

/-- In every file of at most this size, the reader gives the value where the layout
stands, and stops behind it. -/
def Undoes (size : Nat) (read : Reader β ε α) (layout : List β) (value : α) : Prop :=
  ∀ before rest, (before ++ layout ++ rest).length ≤ size →
    read ⟨before ++ layout ++ rest, before.length⟩ =
      .ok (value, ⟨before ++ layout ++ rest, before.length + layout.length⟩)

namespace Undoes

theorem pure (value : α) : Undoes size (Pure.pure value : Reader β ε α) [] value := by
  intro before rest fits
  simp only [List.append_nil, List.length_nil, Nat.add_zero]
  rfl

/-- What follows a layout is read from behind it. -/
theorem read_bind {read : Reader β ε α} {first : List β} {value : α}
    (undoes : Undoes size read first value) (next : α → Reader β ε γ) (before second rest : List β)
    (fits : (before ++ (first ++ second) ++ rest).length ≤ size) :
    (read >>= next) ⟨before ++ (first ++ second) ++ rest, before.length⟩ =
      next value ⟨(before ++ first) ++ second ++ rest, (before ++ first).length⟩ := by
  have split : before ++ (first ++ second) ++ rest = before ++ first ++ (second ++ rest) := by
    simp
  have readFirst := undoes before (second ++ rest) (split ▸ fits)
  simp only [Bind.bind, StateT.bind, split, readFirst, Except.bind]
  simp

theorem bind {read : Reader β ε α} {next : α → Reader β ε γ} {first second : List β}
    {value : α} {result : γ} (undoes : Undoes size read first value)
    (later : Undoes size (next value) second result) :
    Undoes size (read >>= next) (first ++ second) result := by
  intro before rest fits
  rw [undoes.read_bind next before second rest fits,
    later (before ++ first) rest (by simpa using fits)]
  simp [Nat.add_assoc]

theorem bind_nil {read : Reader β ε α} {next : α → Reader β ε γ} {layout : List β}
    {value : α} {result : γ} (undoes : Undoes size read layout value)
    (later : Undoes size (next value) [] result) :
    Undoes size (read >>= next) layout result := by
  have both := undoes.bind later
  rwa [List.append_nil] at both

end Undoes

/-- In every file of at most this size, the reader fails where the layout stands. -/
def Fails (size : Nat) (read : Reader β ε α) (layout : List β) (failure : ε) : Prop :=
  ∀ before rest, (before ++ layout ++ rest).length ≤ size →
    read ⟨before ++ layout ++ rest, before.length⟩ = .error failure

theorem Fails.bind {read : Reader β ε α} {layout : List β} {failure : ε}
    (fails : Fails size read layout failure) (next : α → Reader β ε γ) :
    Fails size (read >>= next) layout failure := by
  intro before rest fits
  simp only [Bind.bind, StateT.bind, fails before rest fits, Except.bind]

theorem Undoes.bind_fails {read : Reader β ε α} {next : α → Reader β ε γ} {first second : List β}
    {value : α} {failure : ε} (undoes : Undoes size read first value)
    (later : Fails size (next value) second failure) :
    Fails size (read >>= next) (first ++ second) failure := by
  intro before rest fits
  rw [undoes.read_bind next before second rest fits]
  exact later (before ++ first) rest (by simpa using fits)

theorem Undoes.bind_fails_nil {read : Reader β ε α} {next : α → Reader β ε γ} {layout : List β}
    {value : α} {failure : ε} (undoes : Undoes size read layout value)
    (later : Fails size (next value) [] failure) :
    Fails size (read >>= next) layout failure := by
  have both := undoes.bind_fails later
  rwa [List.append_nil] at both

/-! ## What a reading comes to -/

/-- The reader, standing before the rest of a file, either gives a value and stops behind
what it is laid out as, or fails at what is there. -/
def ComesAt (read : Reader β ε α) (laidOut : α → List β → Prop) (fails : ε → List β → Prop)
    (before rest : List β) : Prop :=
  (∃ value layout behind, laidOut value layout ∧ rest = layout ++ behind ∧
    read ⟨before ++ rest, before.length⟩ =
      .ok (value, ⟨before ++ rest, before.length + layout.length⟩)) ∨
  ∃ failure, fails failure rest ∧ read ⟨before ++ rest, before.length⟩ = .error failure

/-- The reader comes to that wherever it stands. -/
def Comes (read : Reader β ε α) (laidOut : α → List β → Prop) (fails : ε → List β → Prop) :
    Prop :=
  ∀ before rest, ComesAt read laidOut fails before rest

section Coming

variable {read : Reader β ε α} {next : α → Reader β ε γ} {before rest : List β}
variable {laidOut : α → List β → Prop} {laidOut' : γ → List β → Prop}
variable {fails fails' : ε → List β → Prop}

/-- What is read behind something laid out is described together with it. -/
theorem ComesAt.bind (first : ComesAt read laidOut fails before rest)
    (second : ∀ value front behind, laidOut value front → rest = front ++ behind →
      ComesAt (next value) (fun result back => laidOut' result (front ++ back))
        (fun failure behind => fails' failure (front ++ behind)) (before ++ front) behind)
    (stops : ∀ failure, fails failure rest → fails' failure rest) :
    ComesAt (read >>= next) laidOut' fails' before rest := by
  rcases first with ⟨value, front, behind, isLaidOut, rfl, isRead⟩ | ⟨failure, failed, isRead⟩
  · have later := second value front behind isLaidOut rfl
    simp only [ComesAt, Bind.bind, StateT.bind, isRead, Except.bind]
    rw [← List.length_append, ← List.append_assoc]
    rcases later with ⟨result, back, after, isNext, rfl, isReadNext⟩ | ⟨failure, failed, isReadNext⟩
    · refine .inl ⟨result, front ++ back, after, isNext, ?_, ?_⟩
      · simp
      · rw [isReadNext]
        simp [Nat.add_assoc]
    · exact .inr ⟨failure, failed, isReadNext⟩
  · refine .inr ⟨failure, stops failure failed, ?_⟩
    simp only [Bind.bind, StateT.bind, isRead, Except.bind]

theorem Comes.bind (first : Comes read laidOut fails)
    (second : ∀ value front, laidOut value front →
      Comes (next value) (fun result back => laidOut' result (front ++ back))
        fun failure behind => fails' failure (front ++ behind))
    (stops : ∀ failure rest, fails failure rest → fails' failure rest) :
    Comes (read >>= next) laidOut' fails' :=
  fun before rest => (first before rest).bind
    (fun value front behind isLaidOut _ => second value front isLaidOut (before ++ front) behind)
    fun failure => stops failure rest

theorem ComesAt.mono {laidOut'' : α → List β → Prop}
    (comes : ComesAt read laidOut fails before rest)
    (good : ∀ value layout, laidOut value layout → laidOut'' value layout)
    (bad : ∀ failure, fails failure rest → fails' failure rest) :
    ComesAt read laidOut'' fails' before rest := by
  rcases comes with
    ⟨value, layout, behind, isLaidOut, isRest, isRead⟩ | ⟨failure, failed, isRead⟩
  · exact .inl ⟨value, layout, behind, good value layout isLaidOut, isRest, isRead⟩
  · exact .inr ⟨failure, bad failure failed, isRead⟩

theorem Comes.mono {laidOut'' : α → List β → Prop} (comes : Comes read laidOut fails)
    (good : ∀ value layout, laidOut value layout → laidOut'' value layout)
    (bad : ∀ failure rest, fails failure rest → fails' failure rest) :
    Comes read laidOut'' fails' :=
  fun before rest => (comes before rest).mono good fun failure => bad failure rest

theorem Comes.pure {value : α} (isLaidOut : laidOut value []) :
    Comes (Pure.pure value : Reader β ε α) laidOut fails :=
  fun _ rest => .inl ⟨value, [], rest, isLaidOut, rfl, rfl⟩

theorem Comes.fail {failure : ε} (failed : ∀ rest, fails failure rest) :
    Comes (fun _ => .error failure : Reader β ε α) laidOut fails :=
  fun _ rest => .inr ⟨failure, failed rest, rfl⟩

end Coming

/-! ## Numbers of a fixed width -/

/-- A number in so many bytes, the least significant first. -/
def leBytes : (width : Nat) → Nat → List UInt8
  | 0, _ => []
  | width + 1, number => UInt8.ofNat number :: leBytes width (number / 256)

/-- The number these bytes spell, the least significant first. -/
def ofLe : List UInt8 → Nat
  | [] => 0
  | byte :: bytes => byte.toNat + 256 * ofLe bytes

/-- The number these bytes spell, the most significant first. -/
def ofBe (bytes : List UInt8) : Nat := ofLe bytes.reverse

@[simp] theorem length_leBytes (width number : Nat) : (leBytes width number).length = width := by
  induction width generalizing number with
  | zero => rfl
  | succ width ih => simp [leBytes, ih]

theorem ofLe_leBytes {width number : Nat} (fits : number < 256 ^ width) :
    ofLe (leBytes width number) = number := by
  induction width generalizing number with
  | zero =>
    simp only [pow_zero, Nat.lt_one_iff] at fits
    simp [leBytes, ofLe, fits]
  | succ width ih =>
    have smaller : number / 256 < 256 ^ width := by
      rw [pow_succ] at fits
      omega
    simp only [leBytes, ofLe, ih smaller, UInt8.toNat_ofNat']
    omega

theorem ofLe_lt (bytes : List UInt8) : ofLe bytes < 256 ^ bytes.length := by
  induction bytes with
  | nil => simp [ofLe]
  | cons byte bytes ih =>
    have small := byte.toNat_lt
    rw [ofLe, List.length_cons, pow_succ]
    omega

theorem leBytes_ofLe (bytes : List UInt8) : leBytes bytes.length (ofLe bytes) = bytes := by
  induction bytes with
  | nil => rfl
  | cons byte bytes ih =>
    have small := byte.toNat_lt
    have low : UInt8.ofNat (byte.toNat + 256 * ofLe bytes) = byte := by
      apply UInt8.toNat_inj.mp
      rw [UInt8.toNat_ofNat']
      omega
    have high : (byte.toNat + 256 * ofLe bytes) / 256 = ofLe bytes := by omega
    rw [ofLe, List.length_cons, leBytes, low, high, ih]

/-- A number in so many bytes, the most significant first. -/
def beBytes (width number : Nat) : List UInt8 := (leBytes width number).reverse

@[simp] theorem length_beBytes (width number : Nat) : (beBytes width number).length = width := by
  simp [beBytes]

theorem ofBe_beBytes {width number : Nat} (fits : number < 256 ^ width) :
    ofBe (beBytes width number) = number := by
  simp [ofBe, beBytes, ofLe_leBytes fits]

theorem ofBe_lt (bytes : List UInt8) : ofBe bytes < 256 ^ bytes.length := by
  simpa [ofBe] using ofLe_lt bytes.reverse

theorem beBytes_ofBe (bytes : List UInt8) : beBytes bytes.length (ofBe bytes) = bytes := by
  have spelled := leBytes_ofLe bytes.reverse
  rw [List.length_reverse] at spelled
  rw [beBytes, ofBe, spelled, List.reverse_reverse]

/-- The signed number these bytes spell in two's complement. -/
def ofLeSigned (bytes : List UInt8) : Int := (ofLe bytes : Int).bmod (256 ^ bytes.length)

/-- A signed number in so many bytes, in two's complement. -/
def leBytesSigned (width : Nat) (number : Int) : List UInt8 :=
  leBytes width (number % (256 ^ width : Nat)).toNat

@[simp] theorem length_leBytesSigned (width : Nat) (number : Int) :
    (leBytesSigned width number).length = width := by
  simp [leBytesSigned]

theorem ofLeSigned_leBytesSigned {width : Nat} {number : Int}
    (low : -(256 ^ width : Nat) ≤ 2 * number) (high : 2 * number < (256 ^ width : Nat)) :
    ofLeSigned (leBytesSigned width number) = number := by
  have positive : 0 < 256 ^ width := Nat.pow_pos (by omega)
  have nonneg : 0 ≤ number % ((256 ^ width : Nat) : Int) := Int.emod_nonneg _ (by omega)
  have below : number % ((256 ^ width : Nat) : Int) < (256 ^ width : Nat) :=
    Int.emod_lt_of_pos _ (by omega)
  have spelled : ofLe (leBytesSigned width number) =
      (number % ((256 ^ width : Nat) : Int)).toNat :=
    ofLe_leBytes (by omega)
  rw [ofLeSigned, spelled, length_leBytesSigned, Int.toNat_of_nonneg nonneg, Int.emod_bmod]
  exact Int.bmod_eq_of_le_mul_two (by omega) (by omega)

theorem leBytesSigned_ofLeSigned (bytes : List UInt8) :
    leBytesSigned bytes.length (ofLeSigned bytes) = bytes := by
  have small := ofLe_lt bytes
  have same : ofLeSigned bytes % ((256 ^ bytes.length : Nat) : Int) = ofLe bytes := by
    rw [ofLeSigned, Int.bmod_emod]
    exact Int.emod_eq_of_lt (by omega) (by exact_mod_cast small)
  rw [leBytesSigned, same, Int.toNat_natCast, leBytes_ofLe]

theorem ofLeSigned_bounds (bytes : List UInt8) :
    -((256 ^ bytes.length : Nat) : Int) ≤ 2 * ofLeSigned bytes ∧
      2 * ofLeSigned bytes < (256 ^ bytes.length : Nat) := by
  have positive : 0 < 256 ^ bytes.length := Nat.pow_pos (by omega)
  have low := Int.le_bmod (x := (ofLe bytes : Int)) positive
  have high := Int.bmod_lt (x := (ofLe bytes : Int)) positive
  rw [ofLeSigned]
  omega

end Layout
