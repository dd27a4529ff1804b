import SymbolAtlas.Registry

/-!
Workers that share a registry. A look-up first reads what is known without a lock; only if that
gives no answer does it take the lock of the language, look again, and load. A load that crashes
takes the look-up out of the lock with nothing stored. A schedule says whose turn it is, one step at
a time.
-/

set_option autoImplicit false

namespace SymbolAtlas

inductive LookupStage
  | entering
  | unloaded
  | waiting
  | inside
  | loading (pack : Pack)
  | storing (outcome : Except GrammarError Profile)
  | leaving (answer : Except Crash (Option Profile))
  | finished (answer : Except Crash (Option Profile))

structure LookupWorker where
  language : Language
  stage : LookupStage

structure Crew where
  registry : Registry
  locked : List Language
  workers : List LookupWorker
  /-- The languages that were loaded, one entry per load, whatever came of it. -/
  loads : List Language

namespace Crew

def start (r : Registry) (languages : List Language) : Crew :=
  ⟨r, [], languages.map fun l => ⟨l, .entering⟩, []⟩

def move (c : Crew) (i : Nat) (w : LookupWorker) (stage : LookupStage) : Crew :=
  { c with workers := c.workers.set i { w with stage := stage } }

def lookAgain (r : Registry) (language : Language) : LookupStage :=
  match r.loaded.get? language with
  | some profile => .leaving (.ok (some profile))
  | none =>
    if r.failed.contains language then .leaving (.ok none)
    else
      match r.packs.get? language with
      | none => .leaving (.ok none)
      | some pack => .loading pack

def afterLoad : Except Crash (Except GrammarError Profile) → LookupStage
  | .error crash => .leaving (.error crash)
  | .ok outcome => .storing outcome

/-- The next step of a worker. One that waits for a lock stays where it is until that is free. -/
def advance (installed : Installation) (c : Crew) (i : Nat) (w : LookupWorker) : Crew :=
  match w.stage with
  | .entering =>
    match c.registry.loaded.get? w.language with
    | some profile => c.move i w (.finished (.ok (some profile)))
    | none => c.move i w .unloaded
  | .unloaded =>
    if c.registry.failed.contains w.language ∨ !c.registry.packs.contains w.language then
      c.move i w (.finished (.ok none))
    else c.move i w .waiting
  | .waiting =>
    if c.locked.contains w.language then c
    else { c.move i w .inside with locked := w.language :: c.locked }
  | .inside => c.move i w (lookAgain c.registry w.language)
  | .loading pack =>
    { c.move i w (afterLoad (installed.prepare pack)) with loads := c.loads ++ [w.language] }
  | .storing outcome =>
    let found := c.registry.remember w.language outcome
    { c.move i w (.leaving found.profile) with registry := found.registry }
  | .leaving answer =>
    { c.move i w (.finished answer) with locked := c.locked.filter (· ≠ w.language) }
  | .finished _ => c

def step (installed : Installation) (c : Crew) (i : Nat) : Crew :=
  match c.workers[i]? with
  | some w => c.advance installed i w
  | none => c

def run (installed : Installation) (c : Crew) (schedule : List Nat) : Crew :=
  schedule.foldl (step installed) c

end Crew

end SymbolAtlas
