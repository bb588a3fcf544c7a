import RedisServer.Text

/-!
# Patterns keys are picked out by

A pattern is read once, into a list of items, and then tried against one key
after another.  Anything that cannot be made sense of stands for itself.
-/

namespace RedisServer

/-- One step of a pattern, standing for one byte of a key or for any run of
them. -/
inductive Item where
  | anything
  | one
  | byte (expected : UInt8)
  | oneOf (ranges : List (UInt8 × UInt8)) (negated : Bool)
  deriving DecidableEq, Repr

namespace Item

/-- Whether an item stands for this byte. -/
def «matches» (item : Item) (byte : UInt8) : Bool :=
  match item with
  | .anything | .one => true
  | .byte expected => expected == byte
  | .oneOf ranges negated =>
    (ranges.any fun range => range.1 ≤ byte ∧ byte ≤ range.2) != negated

end Item

/-- A pattern ready to be tried. -/
abbrev Pattern := List Item

namespace Pattern

/-- The ranges named inside brackets, up to the `]` that closes them, and what
is left of the pattern.  Brackets never closed run to the end. -/
def setRanges : Nat → Bytes → List (UInt8 × UInt8) × Bytes
  | 0, pattern => ([], pattern)
  | _ + 1, [] => ([], [])
  | fuel + 1, byte :: rest =>
    if byte = 93 then ([], rest)
    else
      let (first, rest) :=
        match rest with
        | escaped :: rest' => if byte = 92 then (escaped, rest') else (byte, rest)
        | [] => (byte, rest)
      let (last, rest) :=
        match rest with
        | dash :: stop :: rest' =>
          if dash = 45 ∧ stop ≠ 93 then (stop, rest') else (first, rest)
        | _ => (first, rest)
      let read := setRanges fuel rest
      ((if first ≤ last then (first, last) else (last, first)) :: read.1, read.2)

/-- Reads what a `[` opened. -/
def set (pattern : Bytes) : Item × Bytes :=
  match pattern with
  | 94 :: rest =>
    let read := setRanges rest.length rest
    (.oneOf read.1 true, read.2)
  | _ =>
    let read := setRanges pattern.length pattern
    (.oneOf read.1 false, read.2)

/-- Reads the items of a pattern.  `run` is whether the last item read was a run,
several of which say no more than one does. -/
def parseItems : Nat → Bool → Bytes → Pattern
  | 0, _, _ => []
  | _ + 1, _, [] => []
  | fuel + 1, run, byte :: rest =>
    if byte = 42 then
      if run then parseItems fuel true rest else .anything :: parseItems fuel true rest
    else if byte = 63 then .one :: parseItems fuel false rest
    else if byte = 91 then
      let read := set rest
      read.1 :: parseItems fuel false read.2
    else if byte = 92 then
      match rest with
      | escaped :: rest => .byte escaped :: parseItems fuel false rest
      | [] => [.byte 92]
    else .byte byte :: parseItems fuel false rest

def parse (pattern : Bytes) : Pattern := parseItems pattern.length false pattern

/-- The loop of `matches`: the items and bytes reached, and the last run met with
how much of the key it had taken by then.  `none` is an index out of range, or more turns
than the bound allows. -/
def matchLoop (pattern : Pattern) (key : Bytes) :
    Nat → Nat → Nat → Option (Nat × Nat) → Option Bool
  | 0, _, _, _ => none
  | fuel + 1, item, byte, run =>
    match key[byte]? with
    | none =>
      if pattern.length < item then none
      else some ((pattern.drop item).all fun item => item = .anything)
    | some found =>
      let retry :=
        match run with
        | some (place, taken) =>
          matchLoop pattern key fuel (place + 1) (taken + 1) (some (place, taken + 1))
        | none => some false
      match pattern[item]? with
      | some .anything => matchLoop pattern key fuel (item + 1) byte (some (item, byte))
      | some step =>
        if step.matches found then matchLoop pattern key fuel (item + 1) (byte + 1) run
        else retry
      | none => retry

/-- Tries a key, with as many turns as it may take. -/
def scan (pattern : Pattern) (key : Bytes) : Option Bool :=
  matchLoop pattern key ((key.length + 2) * (pattern.length + 2)) 0 0 none

/-- Whether a key is one of those the pattern asks for. -/
def «matches» (pattern : Pattern) (key : Bytes) : Bool := (pattern.scan key).getD false

end Pattern

/-- `h[^a-c]llo*` picks out `hello world` and not `hallo`. -/
example :
    Pattern.matches (Pattern.parse (utf8 "h[^a-c]llo*")) (utf8 "hello world") = true ∧
      Pattern.matches (Pattern.parse (utf8 "h[^a-c]llo*")) (utf8 "hallo") = false := by
  decide +kernel

end RedisServer
