import PocketScript.Fault.Report
import PocketScript.Value.Store

/-!
# Sessions

Everything that outlives a single program: the store, what was written and
logged, the clock, and the native functions on offer. A line typed at a prompt
runs in the session that the lines before it have left.

The clock is part of the session. Each reading gives the current time and
moves the clock on by a fixed amount, which is what makes runs repeatable.

## Main definitions

* `Clock`, `LogRecord`: Parts of a session.
* `Session`: The state of a session.
* `Session.initial`: A session in which nothing has run.
* `Session.register`: Offering a native function.
* `Session.reply`: What a host hears, and what comes of its asking.
-/

namespace PocketScript

/-- A clock that moves on by `tick` with every reading, in nanoseconds. -/
structure Clock where
  now : Int := 0
  tick : Int := 0
deriving Repr, DecidableEq, Inhabited

/-- The log of a run: remarks of the parser, a summary of the program, and how
    the run ended. -/
inductive LogRecord where
  | remark (line : Int) (message : Text)
  | parsed (tokens statements : Nat)
  | finished (succeeded : Bool)
deriving Repr, DecidableEq

/-- The state of a session. -/
structure Session where
  /-- All levels of bindings. -/
  store : Store := .initial
  /-- The names of native functions, in byte order. -/
  builtins : List Text := []
  /-- The calls under way, innermost first, each with the position it was
      made from. -/
  calls : List Frame := []
  /-- The remarks of the parser on the last source that was run. -/
  remarks : List GrammarFault := []
  /-- The lines written by echo, oldest first. -/
  echoed : Array Text := #[]
  /-- Is what echo writes thrown away? -/
  muted : Bool := false
  /-- The clock. -/
  clock : Clock := {}
  /-- Are runs logged? -/
  logging : Bool := false
  /-- The log, oldest first. -/
  log : Array LogRecord := #[]
  /-- The number of stamps given to functions. -/
  stamps : Nat := 0
  /-- What the host keeps between calls of its functions. -/
  memory : Text := []
deriving Inhabited

namespace Session

/-- Reads the clock. -/
def readClock (s : Session) : Int × Session :=
  (s.clock.now, { s with clock := { s.clock with now := s.clock.now + s.clock.tick } })

/-- Adds to the log, if runs are logged. -/
def note (r : LogRecord) (s : Session) : Session :=
  if s.logging then { s with log := s.log.push r } else s

/-- Writes a line, unless the session is muted. -/
def echo (line : Text) (s : Session) : Session :=
  if s.muted then s else { s with echoed := s.echoed.push line }

/-- Everything that echo wrote. -/
def output (s : Session) : Text := s.echoed.toList.flatMap fun line => line ++ [Text.lineFeed]

/-- Forgets what echo wrote. -/
def flushed (s : Session) : Session := { s with echoed := #[] }

/-- Binds a name in a level. -/
def bind (level : LevelId) (name : Text) (v : Value) (s : Session) : Session :=
  { s with store := s.store.set level name v }

/-- Gives out a stamp. -/
def stamp (s : Session) : Nat × Session := (s.stamps, { s with stamps := s.stamps + 1 })

/-- Enters a call. -/
def enter (function : Text) (pos : Position) (s : Session) : Session :=
  { s with calls := ⟨function, pos⟩ :: s.calls }

/-- Leaves the innermost call. -/
def leave (s : Session) : Session := { s with calls := s.calls.tail }

/-- Adds a name to a list in byte order, once. -/
def insertName (name : Text) (names : List Text) : List Text :=
  if names.contains name then names else Text.sort (names ++ [name])

/-- Offers a native function under a name at the outermost level. What was
    bound to the name before is replaced. -/
def register (name : Text) (arity : Int) (action : Native) (s : Session) : Session :=
  let (n, s) := s.stamp
  { s with builtins := insertName name s.builtins }.bind Store.globals name
    (.native ⟨name, arity, action, n⟩)

/-- What comes of asking a session for something: the answer, the values that the
    host holds from then on besides those it held, and the session. -/
structure Reply (q : Query) where
  answer : q.Answer
  shown : List Value
  session : Session

/-- The level of a number. A host has numbers of levels that there are, so any other
    number means the outermost level. -/
def standing (level : LevelId) (s : Session) : LevelId :=
  if level < s.store.levels.size then level else Store.globals

/-- Does what a host asks for, which holds some values. -/
def reply (q : Query) (held : List Value) (s : Session) : Reply q :=
  match q with
  | .time => ⟨s.readClock.1, [], s.readClock.2⟩
  | .kept => ⟨s.memory, [], s⟩
  | .remember t => ⟨(), [], { s with memory := t }⟩
  | .remarks => ⟨s.remarks, [], s⟩
  | .mute muted => ⟨(), [], { s with muted := muted }⟩
  | .names level => ⟨s.store.names level, [], s⟩
  | .outer level => ⟨s.store.outer? level, [], s⟩
  | .nest level =>
    let (id, store) := s.store.openLevel (some (s.standing level))
    ⟨id, [], { s with store := store }⟩
  | .lookup level name =>
    let found := s.store.lookup level name
    ⟨found.map Value.shown, found.toList, s⟩
  | .bind level name v => ⟨(), [], s.bind level name (v.among held)⟩
  | .remove level name =>
    match s.store.remove level name with
    | some store => ⟨true, [], { s with store := store }⟩
    | none => ⟨false, [], s⟩
  | .make name params body home =>
    ⟨(), [.function ⟨name, params, body, s.standing home, s.stamps⟩], s.stamp.2⟩

/-- A session in which nothing has run. It offers the clock. -/
def initial : Session := ({} : Session).register "clock" 0 .clock

/-- The bindings of the outermost level. -/
def globals (s : Session) : Bindings := s.store.bindings Store.globals

end Session

end PocketScript
