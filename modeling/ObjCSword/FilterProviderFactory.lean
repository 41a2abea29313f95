import ObjCSword.Lib.LazyObject
import ObjCSword.SwordFilter

/-!
# The factory of the filter provider

A client sets its filter provider when it starts (`initWith:`), and the manager asks for it whenever
it hands out a module (`get`), both through `[FilterProviderFactory factory]`: one object, which the
first call makes (FilterProviderFactory.mm). There is no lock. A factory object that is new keeps no
provider.
-/

namespace ObjCSword

/-- The variable of `factory`, and what each factory object keeps. -/
structure FactoryState where
  singleton : Lib.LazyObject.Variable
  filterProvider : Nat → Option FilterProvider

/-- A message to `[FilterProviderFactory factory]`. -/
inductive FactoryCall where
  | initWith (aFilterProvider : FilterProvider)
  | get

/-- Where a caller is. Only `get` has an answer. -/
inductive FactoryPhase where
  | factory (phase : Lib.LazyObject.Phase)
  | returned (answer : Option FilterProvider)

namespace FilterProviderFactory

variable {ι : Type}

/-- `initWith:`. -/
def initWith (object : Nat) (aFilterProvider : FilterProvider) (s : FactoryState) : FactoryState :=
  { s with filterProvider := Function.update s.filterProvider object (some aFilterProvider) }

/-- `get`. -/
def get (object : Nat) (s : FactoryState) : Option FilterProvider := s.filterProvider object

/-- The next step of a caller: of `factory`, or of the message to what it has given. -/
def turn (calls : ι → FactoryCall) (i : ι) (s : FactoryState) :
    FactoryPhase → FactoryState × FactoryPhase
  | .factory (.got none) => (s, .returned none)   -- a message to nil
  | .factory (.got (some object)) =>
    match calls i with
    | .initWith aFilterProvider => (initWith object aFilterProvider s, .returned none)
    | .get => (s, .returned (get object s))
  | .factory phase =>
    let (singleton, phase) := Lib.LazyObject.turn i s.singleton phase
    ({ s with singleton := singleton }, .factory phase)
  | .returned answer => (s, .returned answer)

/-- Nobody has called yet, and no provider is set. -/
def start (singleton : Lib.LazyObject.Variable) :
    Lib.Interleaving.State ι FactoryState FactoryPhase :=
  ⟨⟨singleton, fun _ => none⟩, fun _ => .factory .called⟩

end FilterProviderFactory

end ObjCSword
