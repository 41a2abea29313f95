import ObjCSword.VerseEnumerator

/-!
# List keys as objects

A `SwordListKey` (SwordListKey.mm) holds a pointer to an engine key and nothing of the list, and its
enumerators hold the list key: whatever is sent to one of them moves the one cursor behind that
pointer. `numberOfVerses` moves the pointer too, so here it is an address in a memory of keys. A
wrapper is made for a key, and the tests for a null pointer are left out.
-/

namespace ObjCSword

open Lib

/-- The wrapper, and the memory its pointer points into. An address counts in keys, as `++` on the
pointer does, and `none` is memory that holds no list key. -/
structure SwordListKey where
  memory : List (Option (Cursor String))
  sk : Nat
deriving DecidableEq

namespace SwordListKey

variable {β : Type}

/-- Work on the key that the pointer points to. Where there is none, what the program does is not
defined, and the answer is `none`. -/
def deref (self : SwordListKey) (work : Cursor String → β × Cursor String) :
    Option (β × SwordListKey) :=
  match self.memory[self.sk]? with
  | some (some lk) =>
    let (ret, lk) := work lk
    some (ret, { self with memory := self.memory.set self.sk (some lk) })
  | _ => none

/-- The loop of `numberOfVerses`. `*sk++` is `*(sk++)`: the pointer goes on, the key it pointed to
stays where it was. -/
def countVerses : Nat → Nat → SwordListKey → Option (Nat × SwordListKey)
  | 0, _, _ => none
  | fuel + 1, ret, self =>
    (self.deref Cursor.popError).bind fun (error, self) =>
      if error then some (ret, self) else countVerses fuel (ret + 1) { self with sk := self.sk + 1 }

/-- `numberOfVerses`. The loop leaves the memory after one turn for each address at most. -/
def numberOfVerses (self : SwordListKey) : Option (Nat × SwordListKey) :=
  (self.deref fun lk => ((), lk.top)).bind fun (_, self) =>
    countVerses (self.memory.length + 1) 0 self

/-- `*sk = text` on a list: `locate` is where the engine goes for a text, and the error it sets. -/
def setText (locate : List String → String → Nat × Bool) (text : String) (lk : Cursor String) :
    Cursor String :=
  let (pos, error) := locate lk.elems text
  { lk with pos := pos, error := error }

/-- `containsKey:`, given the OSIS reference of the verse key. -/
def containsKey (locate : List String → String → Nat × Bool) (osisRef : String)
    (lk : Cursor String) : Bool × Cursor String :=
  let (error, lk) := (setText locate osisRef lk).popError
  (!error, lk)

/-! ## Calls -/

/-- A call that works on the key behind the pointer. An enumerator has nothing but the list key, so
its name is all there is to tell it from another. -/
inductive KeyCall (ι : Type) where
  | nextObject (enumerator : ι)
  | allObjects (enumerator : ι)
  | containsKey (osisRef : String)
deriving DecidableEq

/-- What a client does with a list key and its enumerators. -/
inductive ListKeyCall (ι : Type) where
  | key (call : KeyCall ι)
  | numberOfVerses
deriving DecidableEq

inductive ListKeyAnswer where
  | verse (ret : Option String)
  | verses (ret : List String)
  | contains (ret : Bool)
  | number (ret : Nat)
deriving DecidableEq

variable {ι : Type}

def KeyCall.work (locate : List String → String → Nat × Bool) :
    KeyCall ι → Cursor String → ListKeyAnswer × Cursor String
  | .nextObject _, lk =>
    let (ret, lk) := VerseEnumerator.nextObject lk
    (.verse ret, lk)
  | .allObjects _, lk =>
    let (ret, lk) := VerseEnumerator.allObjects lk
    (.verses ret, lk)
  | .containsKey osisRef, lk =>
    let (ret, lk) := SwordListKey.containsKey locate osisRef lk
    (.contains ret, lk)

def call (locate : List String → String → Nat × Bool) (self : SwordListKey) :
    ListKeyCall ι → Option (ListKeyAnswer × SwordListKey)
  | .key call => self.deref (call.work locate)
  | .numberOfVerses => self.numberOfVerses.map fun (ret, self) => (.number ret, self)

/-- The answers of some calls, one after the other. -/
def run (locate : List String → String → Nat × Bool) (self : SwordListKey) :
    List (ListKeyCall ι) → Option (List ListKeyAnswer × SwordListKey)
  | [] => some ([], self)
  | c :: calls =>
    (self.call locate c).bind fun (ret, self) =>
      (self.run locate calls).map fun (rets, self) => (ret :: rets, self)

end SwordListKey

end ObjCSword
