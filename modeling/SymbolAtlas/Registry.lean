import SymbolAtlas.Language.Grammar
import SymbolAtlas.Log.Event

/-!
The registry of languages. A language is loaded when it is first asked for; the outcome, good or
bad, is kept and never tried again. A load that crashes has no outcome: the look-up crashes with it
and the next one tries again.
-/

set_option autoImplicit false

namespace SymbolAtlas

structure Profile where
  pack : Pack
  grammar : Grammar
  query : TagQuery

def Installation.prepare (installed : Installation) (p : Pack) :
    Except Crash (Except GrammarError Profile) :=
  match installed.loadGrammar p with
  | .error crash => .error crash
  | .ok (.error e) => .ok (.error e)
  | .ok (.ok g) =>
    match p.compileQuery g with
    | .error e => .ok (.error e)
    | .ok query => .ok (.ok ⟨p, g, query⟩)

structure Registry where
  packs : PackTable
  loaded : Table Language Profile
  failed : Table Language GrammarError

structure Lookup where
  profile : Except Crash (Option Profile)
  registry : Registry
  events : List Event

namespace Registry

def ofPacks (packs : PackTable) : Registry := ⟨packs, Table.empty, Table.empty⟩

def languageFor (r : Registry) (path : String) : Option Language := r.packs.languageFor path

def isLoaded (r : Registry) (language : Language) : Bool := r.loaded.contains language

def remember (r : Registry) (language : Language) :
    Except GrammarError Profile → Lookup
  | .ok profile =>
    ⟨.ok (some profile), { r with loaded := r.loaded.insert language profile },
      [.grammarLoaded language]⟩
  | .error e =>
    ⟨.ok none, { r with failed := r.failed.insert language e }, [.grammarUnavailable language e]⟩

def profileFor (installed : Installation) (r : Registry) (language : Language) : Lookup :=
  match r.loaded.get? language with
  | some profile => ⟨.ok (some profile), r, []⟩
  | none =>
    if r.failed.contains language then ⟨.ok none, r, []⟩
    else
      match r.packs.get? language with
      | none => ⟨.ok none, r, []⟩
      | some pack =>
        match installed.prepare pack with
        -- Nothing is kept of a crash, so the next look-up loads again.
        | .error crash => ⟨.error crash, r, []⟩
        | .ok outcome => r.remember language outcome

def resolve (installed : Installation) (r : Registry) (path : String) : Lookup :=
  match r.languageFor path with
  | none => ⟨.ok none, r, []⟩
  | some language => r.profileFor installed language

def languages (r : Registry) : List Pack := r.packs.values

end Registry

end SymbolAtlas
