import Gridplan.Service.Script

namespace Gridplan.Service

inductive Entry where
  | call (c : Call) (failed : Bool)
  | sleep (seconds : Float)

/-- Which calls fail: those for which this holds of the call and the number of calls of its name up
to it. -/
abbrev Outage := Call → Nat → Bool

structure Retry where
  extra : Int
  delay : Float

def callCount (name : String) (log : List Entry) : Nat :=
  (log.filter fun e ↦ match e with
    | .call c _ => c.name == name
    | .sleep _ => false).length

/-- One call: the log after it, and the text of the failure if it failed. -/
def attempt (fails : Outage) (c : Call) (log : List Entry) : List Entry × Option String :=
  let n := callCount c.name log + 1
  if fails c n then (log ++ [.call c true], some (c.failure n)) else (log ++ [.call c false], none)

/-- The pause after the `i`th failure. There is none from where the power is beyond the largest
finite number. -/
def Retry.pause? (r : Retry) (i : Nat) : Option Float :=
  if i < 1024 then some (r.delay * Float.ofNat (Nat.pow 2 i)) else none

/-- Makes a call that has failed `i` times until it succeeds, at most `left` times more after the
next. -/
def persist (r : Retry) (fails : Outage) (what : String) (c : Call) : Nat → Nat → List Entry →
    List Entry × Option Fault
  | 0, _, log =>
    match attempt fails c log with
    | (log, none) => (log, none)
    | (log, some text) => (log, some (.service (.gaveUp what (r.extra + 1) text)))
  | left + 1, i, log =>
    match attempt fails c log with
    | (log, none) => (log, none)
    | (log, some _) =>
      match r.pause? i with
      | none => (log, some .overflow)
      | some s => persist r fails what c left (i + 1) (log ++ [.sleep s])

def request (r : Retry) (fails : Outage) (what : String) (c : Call) (log : List Entry) :
    List Entry × Option Fault :=
  if r.extra < 0 then (log, some (.service (.gaveUp what (r.extra + 1) "None")))
  else persist r fails what c r.extra.toNat 0 log

def perform (r : Retry) (fails : Outage) : List Action → List Entry → List Entry × Option Fault
  | [], log => (log, none)
  | .pause s :: rest, log => perform r fails rest (log ++ [.sleep s])
  | .stop f :: _, log => (log, some f)
  | .fetch :: rest, log =>
    match attempt fails .fetch log with
    | (log, none) => perform r fails rest log
    | (log, some text) => (log, some (.refused text))
  | .request what c :: rest, log =>
    match request r fails what c log with
    | (log, none) => perform r fails rest log
    | (log, some f) => (log, some f)

def execute (r : Retry) (fails : Outage) (s : Schedule String) (title : String) (delay : Float)
    (rows cols : Int) : List Entry × Option Fault :=
  match checkSize s with
  | .error f => ([], some f)
  | .ok () => perform r fails (script s title delay rows cols) []

def callOnce (fails : Outage) (c : Call) (log : List Entry) : List Entry × Option Fault :=
  match attempt fails c log with
  | (log, none) => (log, none)
  | (log, some text) => (log, some (.service (.failed text)))

end Gridplan.Service
