import RedisServer.Store.State

/-!
# Strings in the store
-/

namespace RedisServer

/-- Reads a stored value as a number, which it only is when it is spelled the
single way the number would be printed back. -/
def asNumber (value : Bytes) : Option Int :=
  match text value with
  | none => none
  | some content =>
    match parseI64 content with
    | none => none
    | some number => if toString number = content then some number else none

/-- Why an increment could not go through. -/
inductive IncrementError where
  | notAnInteger
  | overflow
  | wrongType
  deriving DecidableEq, Repr

namespace State

/-- Sets a key, whatever it held.  A deadline past what the clock can stand for
panics before anything is changed. -/
def set (now : Instant) (state : State) (key value : Bytes)
    (expiresIn : Option Duration) : Option State :=
  match expiresIn with
  | none => some (put none)
  | some delay => (instantAdd now delay).map fun deadline => put (some deadline)
where
  put (expiresAt : Option Instant) : State :=
    let version := state.changes + 1
    { state with
      entries := state.entries.insert key ⟨.string value, expiresAt, version⟩
      changes := version }

def get (now : Instant) (state : State) (key : Bytes) :
    State × Except WrongType (Option Bytes) :=
  let state := state.looked now key
  (state,
    match state.entries[key]? with
    | none => .ok none
    | some { data := .string value, .. } => .ok (some value)
    | some _ => .error .wrongType)

/-- Adds one to the number held at a key.  A key that is not there counts as
zero, and the deadline a key carries stays in place. -/
def increment (now : Instant) (state : State) (key : Bytes) :
    State × Except IncrementError Int :=
  let opened := state.opened now key (.string (utf8 "0"))
  let state := opened.1
  let entry := opened.2
  match entry.data with
  | .string value =>
    match asNumber value with
    | none => (state, .error .notAnInteger)
    | some number =>
      if i64Max < number + 1 then (state, .error .overflow)
      else
        (state.stored key
            { entry with
              data := .string (utf8 (toString (number + 1)))
              version := state.changes },
          .ok (number + 1))
  | _ => (state, .error .wrongType)

end State

end RedisServer
