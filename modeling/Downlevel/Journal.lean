import Downlevel.Error
import Downlevel.Name
import Std.Data.HashMap
import Std.Data.HashSet

/-!
# The journal of a conversion

Work on classes finds things that do not stop it: symbols that the target release lacks, calls whose
owner cannot be told, and classes that are not known.  Such findings go into a journal, in the order
in which they are made, together with notes on what is being done.  A session is the journal with
what was learnt about super classes so far.
-/

namespace Downlevel

/-- Something found in a class that does not stop the work on it. -/
inductive Finding where
  /-- A class that the target release lacks. -/
  | missingClass (release : String) (name : ClassName)
  /-- A type with a class that the target release lacks. -/
  | missingType (release : String) (descriptor : FieldDescriptor)
  /-- A method type with a class that the target release lacks. -/
  | missingDescriptor (release : String) (descriptor : MethodDescriptor)
  /-- A field that the target release lacks. -/
  | missingField (release : String) (owner : ClassName) (name : FieldName)
      (descriptor : FieldDescriptor)
  /-- A method that the target release lacks. -/
  | missingMethod (release : String) (owner : ClassName) (name : MethodName)
      (descriptor : MethodDescriptor)
  /-- A call that several classes could answer. -/
  | ambiguousCall (context : String) (owner : ClassName) (name : MethodName)
      (descriptor : MethodDescriptor) (owners : List ClassName)
  /-- A class, met on the way up from `requested`, that nothing is known about. -/
  | unknownClass (requested current : ClassName)
  /-- A class, met on the way up from `requested`, that is its own ancestor. -/
  | cyclicSuperClasses (requested current : ClassName)
  deriving DecidableEq

/-- The kinds of findings. -/
inductive FindingKind where
  | missingSymbol
  | ambiguousWidening
  | hierarchyLookup
  deriving DecidableEq

/-- How much attention an event asks for. -/
inductive Level where
  | error
  | warn
  | info
  deriving DecidableEq

namespace Level

/-- The word for a level. -/
def word : Level → String
  | error => "ERROR"
  | warn => "WARN"
  | info => "INFO"

end Level

namespace Finding

/-- The kind of a finding. -/
def kind : Finding → FindingKind
  | missingClass _ _ => .missingSymbol
  | missingType _ _ => .missingSymbol
  | missingDescriptor _ _ => .missingSymbol
  | missingField _ _ _ _ => .missingSymbol
  | missingMethod _ _ _ _ => .missingSymbol
  | ambiguousCall _ _ _ _ _ => .ambiguousWidening
  | unknownClass _ _ => .hierarchyLookup
  | cyclicSuperClasses _ _ => .hierarchyLookup

/-- The wording of a finding. -/
def text : Finding → String
  | missingClass release name => s!"Class not found in java {release}: {name}"
  | missingType release descriptor => s!"Type not found in java {release}: {descriptor}"
  | missingDescriptor release descriptor =>
      s!"Descriptor not found in java {release}: {descriptor}"
  | missingField release owner name descriptor =>
      s!"Field not found in java {release}: {owner} {name} {descriptor}"
  | missingMethod release owner name descriptor =>
      s!"Method not found in java {release}: {owner} {name} {descriptor}"
  | ambiguousCall context owner name descriptor owners =>
      s!"{context}: Ambiguous method call: Could not track overridden owner for " ++
        s!"{owner} {name}{descriptor}, multiple matching: " ++ ", ".intercalate owners
  | unknownClass requested current =>
      s!"Failed to compute class hierarchy for {requested}: " ++
        s!"Class not found: {current} (assuming java/lang/Object)"
  | cyclicSuperClasses requested current =>
      s!"Failed to compute class hierarchy for {requested}: " ++
        s!"Cyclic super classes at {current} (assuming java/lang/Object)"

end Finding

namespace FindingKind

/-- The level of findings of a kind. -/
def level : FindingKind → Level
  | missingSymbol => .error
  | ambiguousWidening => .error
  | hierarchyLookup => .warn

end FindingKind

/-- A finding with the class that was worked on. -/
structure Report where
  cls : ClassName
  finding : Finding
  deriving DecidableEq

namespace Report

/-- Whether a report is of a missing symbol. -/
def isMissingSymbol (report : Report) : Bool :=
  report.finding.kind = .missingSymbol

end Report

/-- What is being done, or was passed over. -/
inductive Note where
  | buildingSymbols (release : String)
  | loadedSymbols (release : String) (classes known : Nat)
  | readingInput (path : String)
  | converting (cls : ClassName)
  | automaticModule (name : ModuleName)
  | missingPath (path : String)
  | cannotRemove (path : String) (reason : Error)
  deriving DecidableEq

namespace Note

/-- The level of a note. -/
def level : Note → Level
  | missingPath _ => .warn
  | cannotRemove _ _ => .warn
  | _ => .info

/-- The wording of a note. -/
def text : Note → String
  | buildingSymbols release => s!"Building symbol table for java {release}"
  | loadedSymbols release classes known =>
      s!"Loaded symbol table for java {release}: {classes} classes, {known} in the current JDK"
  | readingInput path => "Reading input " ++ Quoted.text path
  | converting cls => s!"Converting {cls}"
  | automaticModule name => s!"Replacing module {name} with an automatic module"
  | missingPath path => "Class path entry " ++ Quoted.text path ++ " doesn't exist, ignoring it"
  | cannotRemove path reason =>
      "Failed to remove the partially written " ++ Quoted.text path ++ ": " ++ reason.message

end Note

/-- Something that happened: a finding was made, or something worth a note was done. -/
inductive Event where
  | found (report : Report)
  | noted (note : Note)
  deriving DecidableEq

namespace Event

/-- The level of an event. -/
def level : Event → Level
  | found report => report.finding.kind.level
  | noted note => note.level

/-- The wording of an event. -/
def text : Event → String
  | found report => s!"In {report.cls}: " ++ report.finding.text
  | noted note => note.text

/-- The line for an event in a log. -/
def line (event : Event) : String :=
  "[" ++ event.level.word ++ "] " ++ event.text

/-- The finding of an event, if it is one. -/
def report? : Event → Option Report
  | found report => some report
  | noted _ => none

end Event

/-- Everything that happened, in order. -/
abbrev Journal := List Event

namespace Journal

/-- The findings of a journal. -/
def reports (journal : Journal) : List Report :=
  journal.filterMap Event.report?

/-- Whether a journal has a missing symbol. -/
def hasMissingSymbols (journal : Journal) : Bool :=
  journal.reports.any Report.isMissingSymbol

end Journal

/-- The journal of a conversion with what it learnt about super classes. -/
structure Session where
  journal : Journal := []
  /-- The ancestors of each class that was asked for, from the class itself to the root. -/
  chains : Std.HashMap ClassName (List ClassName) := ∅
  /-- The classes met on the way that are interfaces. -/
  interfaces : Std.HashSet ClassName := ∅

namespace Session

/-- Puts an event at the end of the journal. -/
def record (event : Event) (session : Session) : Session :=
  { session with journal := session.journal ++ [event] }

end Session

namespace Task

/-- Reports a finding in a class. -/
def report (cls : ClassName) (finding : Finding) : Task Session Unit :=
  modify (Session.record (.found ⟨cls, finding⟩))

/-- Notes what is being done. -/
def note (note : Note) : Task Session Unit :=
  modify (Session.record (.noted note))

end Task

end Downlevel
