import RedisServer.Lib.Framing

/-!
# A stream that arrives in pieces

What a reader finds at the front of a stream it should find however much of the
stream has arrived.  Such a reader may be asked again after every piece: what it finds
all told is what it would have found in the whole.
-/

namespace Framing

variable {β α ε : Type}

/-- What reading a stream has come to: the items found, each with the number of symbols
it took up, what is left of the stream, and the error that put an end to it. -/
structure Scan (β α ε : Type) where
  items : List (α × Nat)
  left : List β
  error : Option ε

namespace Scan

/-- Items found before those of another scan. -/
def after (items : List (α × Nat)) (scan : Scan β α ε) : Scan β α ε :=
  { scan with items := items ++ scan.items }

@[simp] theorem after_items (items : List (α × Nat)) (scan : Scan β α ε) :
    (scan.after items).items = items ++ scan.items := rfl

@[simp] theorem after_left (items : List (α × Nat)) (scan : Scan β α ε) :
    (scan.after items).left = scan.left := rfl

@[simp] theorem after_error (items : List (α × Nat)) (scan : Scan β α ε) :
    (scan.after items).error = scan.error := rfl

theorem after_after (first second : List (α × Nat)) (scan : Scan β α ε) :
    (scan.after second).after first = scan.after (first ++ second) := by
  simp [after]

end Scan

/-- Reads items off the front until there is only part of one.  `fuel` bounds the
number of items. -/
def scan (read : Reader β α ε) : Nat → List β → Scan β α ε
  | 0, input => ⟨[], input, none⟩
  | fuel + 1, input =>
    match read input with
    | .error error => ⟨[], input, some error⟩
    | .ok none => ⟨[], input, none⟩
    | .ok (some (item, rest)) =>
      (scan read fuel rest).after [(item, input.length - rest.length)]

/-- Reads every item there is.  Each takes up something, so that there are no more of
them than symbols. -/
def scanAll (read : Reader β α ε) (input : List β) : Scan β α ε :=
  scan read (input.length + 1) input

/-- What is found at the front stays found as the stream goes on, and it takes up
something. -/
structure Stable (read : Reader β α ε) : Prop where
  found : ∀ {input rest : List β} {item : α}, read input = .ok (some (item, rest)) →
    ∀ more, read (input ++ more) = .ok (some (item, rest ++ more))
  failed : ∀ {input : List β} {error : ε}, read input = .error error →
    ∀ more, read (input ++ more) = .error error
  shorter : ∀ {input rest : List β} {item : α}, read input = .ok (some (item, rest)) →
    rest.length < input.length

section Reading

variable {read : Reader β α ε}

theorem scan_eq_scanAll (stable : Stable read) {fuel : Nat} {input : List β}
    (ample : input.length < fuel) : scan read fuel input = scanAll read input := by
  have same (fuel other : Nat) (input : List β) (ample : input.length < fuel)
      (otherAmple : input.length < other) : scan read fuel input = scan read other input := by
    induction fuel generalizing other input with
    | zero => omega
    | succ fuel ih =>
      obtain ⟨other, rfl⟩ : ∃ less, other = less + 1 := ⟨other - 1, by omega⟩
      simp only [scan]
      split
      · rfl
      · rfl
      · rename_i item rest isFound
        have shorter := stable.shorter isFound
        rw [ih other rest (by omega) (by omega)]
  exact same fuel _ input ample (Nat.lt_succ_self _)

theorem scanAll_eq (stable : Stable read) (input : List β) :
    scanAll read input =
      match read input with
      | .error error => ⟨[], input, some error⟩
      | .ok none => ⟨[], input, none⟩
      | .ok (some (item, rest)) =>
        (scanAll read rest).after [(item, input.length - rest.length)] := by
  rw [scanAll, scan]
  split
  · rfl
  · rfl
  · rename_i item rest isFound
    rw [scan_eq_scanAll stable (stable.shorter isFound)]

/-- Nothing more is found in what a scan has left. -/
theorem scanAll_left (stable : Stable read) (input : List β)
    (unfailed : (scanAll read input).error = none) :
    scanAll read (scanAll read input).left = ⟨[], (scanAll read input).left, none⟩ := by
  induction length : input.length using Nat.strong_induction_on generalizing input with
  | _ length ih =>
    have here := scanAll_eq stable input
    cases isRead : read input with
    | error error =>
      rw [isRead] at here
      simp [here] at unfailed
    | ok result =>
      cases result with
      | none =>
        rw [isRead] at here
        rw [here]
        exact here
      | some found =>
        have shorter := stable.shorter isRead
        rw [isRead] at here
        rw [here] at unfailed ⊢
        exact ih found.2.length (by omega) found.2 unfailed rfl

/-- Reading what has arrived, and then what is left together with what arrives next,
is reading the whole. -/
theorem scanAll_append (stable : Stable read) (input more : List β) :
    scanAll read (input ++ more) =
      match (scanAll read input).error with
      | some error =>
        ⟨(scanAll read input).items, (scanAll read input).left ++ more, some error⟩
      | none =>
        (scanAll read ((scanAll read input).left ++ more)).after (scanAll read input).items := by
  induction length : input.length using Nat.strong_induction_on generalizing input with
  | _ length ih =>
    cases isRead : read input with
    | error error =>
      have here : scanAll read input = ⟨[], input, some error⟩ := by
        rw [scanAll_eq stable, isRead]
      have whole := stable.failed isRead more
      rw [here, scanAll_eq stable, whole]
    | ok result =>
      cases result with
      | none =>
        have here : scanAll read input = ⟨[], input, none⟩ := by
          rw [scanAll_eq stable, isRead]
        rw [here]
        rfl
      | some found =>
        obtain ⟨item, rest⟩ := found
        have shorter := stable.shorter isRead
        have here : scanAll read input =
            (scanAll read rest).after [(item, input.length - rest.length)] := by
          rw [scanAll_eq stable, isRead]
        have taken : (input ++ more).length - (rest ++ more).length =
            input.length - rest.length := by
          simp only [List.length_append]
          omega
        rw [scanAll_eq stable, stable.found isRead more]
        simp only [taken, here, ih rest.length (by omega) rest rfl, Scan.after_items,
          Scan.after_left, Scan.after_error]
        cases (scanAll read rest).error with
        | none => rw [Scan.after_after]
        | some error => rfl

/-- A stream of items that delimit themselves is scanned into those items. -/
theorem scanAll_flatMap (stable : Stable read) (spent : read [] = .ok none)
    {encode : α → List β} {items : List α}
    (delimits : ∀ item ∈ items, Delimits read encode item) :
    scanAll read (items.flatMap encode) =
      ⟨items.map fun item => (item, (encode item).length), [], none⟩ := by
  induction items with
  | nil => rw [List.flatMap_nil, scanAll_eq stable, spent]; rfl
  | cons item items ih =>
    obtain ⟨first, others⟩ := List.forall_mem_cons.mp delimits
    rw [List.flatMap_cons, scanAll_eq stable, first.whole]
    simp [ih others, Scan.after]

end Reading

end Framing
