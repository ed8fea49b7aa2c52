import Downlevel.Text.Affix

/-!
# Services

Which classes provide which service.  A jar lists the providers of a service in a file of its own,
one on each line; the files list them in order and each once.
-/

namespace Downlevel

/-- The providers of services: services in order, and the providers of each in order. -/
structure Services where
  providers : List (String × List String) := []
  deriving DecidableEq, Inhabited

namespace Services

/-- The directory of the files with providers. -/
def directory : String := "META-INF/services/"

/-- The service that a file in a jar lists the providers of, if it is such a file. -/
def serviceOf? (file : String) : Option String :=
  match Text.after? directory file with
  | some service =>
      if service.isEmpty || service.toList.contains '/' then none else some service
  | none => none

/-- Puts a text into a sorted list, unless it is there. -/
def insertSorted (text : String) : List String → List String
  | [] => [text]
  | first :: rest =>
      if text = first then first :: rest
      else if text < first then text :: first :: rest
      else first :: insertSorted text rest

/-- Adds providers to those of a service, in a list that is sorted by services. -/
def addTo (service : String) (added : List String) :
    List (String × List String) → List (String × List String)
  | [] => [(service, added.foldl (fun known text => insertSorted text known) [])]
  | (name, known) :: rest =>
      if service = name then
        (name, added.foldl (fun known text => insertSorted text known) known) :: rest
      else if service < name then
        (service, added.foldl (fun known text => insertSorted text known) []) ::
          (name, known) :: rest
      else (name, known) :: addTo service added rest

variable (services : Services)

/-- Adds a provider of a service. -/
def add (service provider : String) : Services :=
  ⟨addTo service [provider] services.providers⟩

/-- The providers in a listing: the lines that are not blank, without the blanks around them. -/
def listed (listing : String) : List String :=
  ((Text.splitLines listing.toList).map Text.trim).filterMap fun line =>
    if line.isEmpty then none else some (String.ofList line)

/-- Adds the providers in a listing. -/
def addListing (service listing : String) : Services :=
  ⟨addTo service (listed listing) services.providers⟩

/-- The files with the providers: their names and their texts. -/
def files : List (String × String) :=
  services.providers.map fun (service, known) =>
    (directory ++ service, String.join (known.map fun provider => provider ++ "\n"))

end Services

end Downlevel
