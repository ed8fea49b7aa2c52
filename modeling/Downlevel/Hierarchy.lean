import Downlevel.Frame.Merge
import Downlevel.Journal
import Downlevel.Lookup

/-!
# Super classes

The chain of a class leads from the class over its super class and the super class of that up to the
root.  A class that nothing is known about, or that is its own ancestor, is reported and taken to
stand directly below the root.  Chains are remembered, so that each is computed, and each problem
reported, only once.
-/

namespace Downlevel

namespace Hierarchy

/-- The way up from a class: the classes on it, the highest first, those of them that are
interfaces, and the chain that it leads into. -/
structure Climb where
  walked : List ClassName
  interfaces : List ClassName
  tail : List ClassName

/-- The chain of the root. -/
def rootChain : List ClassName :=
  [ClassName.javaObject]

/-- Climbs from `current` until a class is met whose chain is known.  The classes behind it are
`walked`, and `interfaces` are those of them that are interfaces.  Every step up meets another known
class, so that the number of known classes bounds the steps. -/
def climb (lookup : Lookup) (requested : ClassName) :
    Nat → ClassName → List ClassName → List ClassName → Task Session Climb
  | 0, _, _, _ => fail (.lower .endlessSearch)
  | steps + 1, current, walked, interfaces => do
      if current = ClassName.javaObject then
        return ⟨walked, interfaces, rootChain⟩
      else
        match (← get).chains[current]? with
        | some chain => return ⟨walked, interfaces, chain⟩
        | none =>
            if walked.contains current then
              Task.report requested (.cyclicSuperClasses requested current)
              return ⟨walked, interfaces, rootChain⟩
            else
              match ← lookup.resolve current with
              | none =>
                  Task.report requested (.unknownClass requested current)
                  return ⟨current :: walked, interfaces, rootChain⟩
              | some outline =>
                  let interfaces :=
                    if outline.isInterface then current :: interfaces else interfaces
                  match outline.superClass with
                  | none => return ⟨current :: walked, interfaces, rootChain⟩
                  | some parent =>
                      climb lookup requested steps parent (current :: walked) interfaces

/-- Remembers the chains of classes that were walked, the highest first, on the way into a chain.
The result is the chain of the lowest. -/
def remember : List ClassName → List ClassName → Session → List ClassName × Session
  | [], chain, session => (chain, session)
  | name :: lower, chain, session =>
      remember lower (name :: chain)
        { session with chains := session.chains.insertIfNew name (name :: chain) }

/-- The chain of a class. -/
def chain (lookup : Lookup) (requested : ClassName) : Task Session (List ClassName) := do
  if requested = ClassName.javaObject then return rootChain
  else
    match (← get).chains[requested]? with
    | some known => return known
    | none =>
        let way ← climb lookup requested (lookup.size + 1) requested [] []
        modify fun session =>
          { session with interfaces := session.interfaces.insertMany way.interfaces }
        let (result, session) := remember way.walked way.tail (← get)
        set session
        return result

/-- Whether a class is known to be an interface. -/
def isInterface (lookup : Lookup) (name : ClassName) : Task Session Bool := do
  let _ ← chain lookup name
  return (← get).interfaces.contains name

/-- The nearest class that two classes both extend.  Interfaces have only the root in common with
other classes. -/
def common (lookup : Lookup) (a b : ClassName) : Task Session ClassName := do
  if a = ClassName.javaObject || b = ClassName.javaObject then return ClassName.javaObject
  else
    let chainA ← chain lookup a
    let chainB ← chain lookup b
    if ← isInterface lookup a then return ClassName.javaObject
    else if ← isInterface lookup b then return ClassName.javaObject
    else return (chainA.find? fun name => chainB.contains name).getD ClassName.javaObject

/-- The super classes that a lookup knows. -/
def supers (lookup : Lookup) : SuperClasses Session where
  common := common lookup

end Hierarchy

end Downlevel
