/-!
# Kinds of objects

Hosts hand objects over and get objects back.  An object says of what kind it is
and lists its parts.  This module gives each kind its title and the names of its
parts, and says how each part is given.
-/

namespace PushValue

/-- How a part of an object is given. -/
inductive Slot where
  | object
  | integer
  | text
  | optionalText
  | flag
  /-- The text of a separator. -/
  | separator
  /-- Objects in order. -/
  | sequence
  /-- Objects by name. -/
  | names
  /-- Objects by symbol. -/
  | symbols
deriving DecidableEq

inductive Kind where
  -- symbols
  | anonymous
  | numberSymbol
  | nameSymbol
  | joinSymbol
  | withinSymbol
  | joinBySymbol
  | markSymbol
  -- values
  | number
  | symbol
  | pointer
  | process
  | variable
  | variant
  | record
  | extension
  | boxed
  | operand
  -- parts of values and computations
  | field
  | box
  | fieldPattern
  | case
  | branch
  -- patterns
  | ignorePattern
  | variablePattern
  | fieldsPattern
  | variantPattern
  -- computations
  | nest
  | spawn
  | put
  | get
  | link
  | assert
  | lambda
  | apply
  | bind
  | bindBox
  | ret
  | returned
  | switch
  | branches
  | project
  | extract
  | hole
  -- traces
  | sequenceTrace
  | nestTrace
  | retTrace
  | putTrace
  | getTrace
  | linkTrace
  -- states of processes
  | environment
  | bindContext
  | bindBoxContext
  | argumentContext
  | labelContext
  | nestContext
  | frame
  | running
  -- stages of processes, and worlds
  | pendingStage
  | runningStage
  | awaitingEntryStage
  | awaitingHaltStage
  | failedStage
  | haltedStage
  | world
  -- signals
  | haltSignal
  | awaitEntrySignal
  | awaitHaltSignal
  | spawnSignal
  -- faults
  | undefinedVariable
  | operandLeft
  | notRecord
  | notVariant
  | fieldNotFound
  | variantMismatch
  | undefinedBox
  | switchNotVariant
  | missingCase
  | missingBranch
  | noStep
  | notSymbol
  | notPointer
  | notLinkTarget
  | noSuchProcess
  | undefinedEntry
  | duplicateName
  | assertionFailed
  | roundLimit
  -- general faults, which say only where they arose
  | machineFault
  | valueFault
  | patternFault
  | extractionFault
  | switchFault
  | projectionFault
  | invariantFault
  | namesFault
  -- collections inside objects
  | sequence
  | mapping
  | entry
deriving DecidableEq

namespace Kind

def outline : Kind -> String × List (String × Slot)
  | anonymous => ("SymNone", [])
  | numberSymbol => ("SymNum", [("n", .integer)])
  | nameSymbol => ("SymId", [("name", .text)])
  | joinSymbol => ("SymBin", [("left", .object), ("right", .object)])
  | withinSymbol => ("SymNest", [("outer", .object), ("inner", .object)])
  | joinBySymbol => ("SymTri", [("left", .object), ("sep", .object), ("right", .object)])
  | markSymbol => ("SymSep", [("sep", .separator)])
  | number => ("Num", [("n", .integer)])
  | symbol => ("SymLit", [("sym", .object)])
  | pointer => ("Ptr", [("sym", .object)])
  | process => ("ProcHandle", [("sym", .object)])
  | .variable => ("Var", [("name", .text)])
  | variant => ("Variant", [("label", .object), ("payload", .object)])
  | record => ("Record", [("fields", .sequence)])
  | extension => ("RecordExt", [("base", .object), ("field", .object)])
  | boxed => ("Bx", [("box", .object)])
  | operand => ("CallByValue", [("exp", .object)])
  | field => ("ValField", [("label", .object), ("value", .object)])
  | box => ("BxVal", [("code", .object), ("name", .optionalText), ("bxes", .names)])
  | fieldPattern => ("FieldPat", [("label", .object), ("pattern", .object)])
  | case => ("Case", [("label", .object), ("pattern", .object), ("body", .object)])
  | branch => ("Branch", [("label", .object), ("body", .object)])
  | ignorePattern => ("PatIgnore", [])
  | variablePattern => ("PatVar", [("name", .text)])
  | fieldsPattern => ("PatFields", [("fields", .sequence)])
  | variantPattern => ("PatCase", [("field", .object)])
  | nest => ("Nest", [("sym", .object), ("body", .object)])
  | spawn => ("Spawn", [("sym", .object), ("body", .object)])
  | put => ("Put", [("sym", .object), ("value", .object)])
  | get => ("Get", [("ptr", .object)])
  | link => ("Link", [("target", .object)])
  | assert => ("AssertEq", [("left", .object), ("equal", .flag), ("right", .object)])
  | lambda => ("Lambda", [("pattern", .object), ("body", .object)])
  | apply => ("App", [("exp", .object), ("arg", .object)])
  | bind => ("Let", [("pattern", .object), ("bound", .object), ("body", .object)])
  | bindBox => ("LetBx", [("pattern", .object), ("bound", .object), ("body", .object)])
  | ret => ("Ret", [("value", .object)])
  | returned => ("Returned", [("value", .object)])
  | switch => ("Switch", [("scrutinee", .object), ("cases", .sequence)])
  | branches => ("Branches", [("branches", .sequence)])
  | project => ("Project", [("exp", .object), ("label", .object)])
  | extract => ("Extract", [("value", .object)])
  | hole => ("Hole", [])
  | sequenceTrace => ("TraceSeq", [("items", .sequence)])
  | nestTrace => ("TraceNest", [("sym", .object), ("items", .sequence)])
  | retTrace => ("TraceRet", [("value", .object)])
  | putTrace => ("TracePut", [("sym", .object), ("value", .object)])
  | getTrace => ("TraceGet", [("sym", .object), ("value", .object)])
  | linkTrace => ("TraceLink", [("target", .object), ("result", .object)])
  | environment => ("Env", [("vals", .names), ("bxes", .names)])
  | bindContext => ("LetFrame", [("env", .object), ("pattern", .object), ("body", .object)])
  | bindBoxContext => ("LetBxFrame", [("env", .object), ("pattern", .object), ("body", .object)])
  | argumentContext => ("AppFrame", [("arg", .object)])
  | labelContext => ("ProjectFrame", [("label", .object)])
  | nestContext => ("NestFrame", [("sym", .object)])
  | frame => ("Frame", [("cont", .object), ("trace", .sequence)])
  | running =>
      ("Running", [("cont", .object), ("env", .object), ("stack", .sequence),
        ("trace", .sequence)])
  | pendingStage => ("ProcPending", [("body", .object)])
  | runningStage => ("ProcRunning", [("running", .object)])
  | awaitingEntryStage => ("ProcWaitingForPtr", [("running", .object), ("sym", .object)])
  | awaitingHaltStage => ("ProcWaitingForHalt", [("running", .object), ("sym", .object)])
  | failedStage => ("ProcError", [("running", .object), ("error", .object)])
  | haltedStage => ("ProcHalted", [("retval", .object), ("trace", .sequence)])
  | world => ("System", [("store", .symbols), ("procs", .symbols)])
  | haltSignal => ("Halt", [("value", .object)])
  | awaitEntrySignal => ("LinkWaitPtr", [("sym", .object)])
  | awaitHaltSignal => ("LinkWaitHalt", [("sym", .object)])
  | spawnSignal => ("SpawnRequest", [("name", .object), ("env", .object), ("body", .object)])
  | undefinedVariable => ("UndefinedVariable", [("name", .text)])
  | operandLeft => ("CallByValueLeak", [])
  | notRecord => ("NotRecord", [])
  | notVariant => ("NotVariant", [])
  | fieldNotFound => ("FieldNotFound", [("label", .object)])
  | variantMismatch => ("CaseMismatch", [("expected", .object), ("found", .object)])
  | undefinedBox => ("UndefinedBox", [("name", .text)])
  | switchNotVariant => ("SwitchNotVariant", [("value", .object)])
  | missingCase => ("MissingCase", [("sym", .object)])
  | missingBranch => ("MissingBranch", [("sym", .object)])
  | noStep => ("NoStep", [])
  | notSymbol => ("NotASymbol", [("value", .object)])
  | notPointer => ("NotAPointer", [("value", .object)])
  | notLinkTarget => ("NotLinkTarget", [("value", .object)])
  | noSuchProcess => ("InvalidProc", [("sym", .object)])
  | undefinedEntry => ("UndefinedSymbol", [("sym", .object)])
  | duplicateName => ("DuplicateName", [("sym", .object)])
  | assertionFailed =>
      ("AssertionFailure", [("left", .object), ("equal", .flag), ("right", .object)])
  | roundLimit => ("RoundLimitExceeded", [("rounds", .integer)])
  | machineFault => ("MachineError", [("args", .optionalText)])
  | valueFault => ("ValueResolutionError", [("args", .optionalText)])
  | patternFault => ("PatternError", [("args", .optionalText)])
  | extractionFault => ("ExtractError", [("args", .optionalText)])
  | switchFault => ("SwitchError", [("args", .optionalText)])
  | projectionFault => ("ProjectError", [("args", .optionalText)])
  | invariantFault => ("InterpreterInvariantError", [("args", .optionalText)])
  | namesFault => ("FreeVarsExhausted", [("args", .optionalText)])
  | sequence => ("sequence", [])
  | mapping => ("mapping", [])
  | entry => ("entry", [])

def title (k : Kind) : String := k.outline.1

def parts (k : Kind) : List (String × Slot) := k.outline.2

def all : List Kind :=
  [anonymous, numberSymbol, nameSymbol, joinSymbol, withinSymbol, joinBySymbol, markSymbol,
    number, symbol, pointer, process, .variable, variant, record, extension, boxed, operand,
    field, box, fieldPattern, case, branch,
    ignorePattern, variablePattern, fieldsPattern, variantPattern,
    nest, spawn, put, get, link, assert, lambda, apply, bind, bindBox, ret, returned, switch,
    branches, project, extract, hole,
    sequenceTrace, nestTrace, retTrace, putTrace, getTrace, linkTrace,
    environment, bindContext, bindBoxContext, argumentContext, labelContext, nestContext, frame,
    running, pendingStage, runningStage, awaitingEntryStage, awaitingHaltStage, failedStage,
    haltedStage, world,
    haltSignal, awaitEntrySignal, awaitHaltSignal, spawnSignal,
    undefinedVariable, operandLeft, notRecord, notVariant, fieldNotFound, variantMismatch,
    undefinedBox, switchNotVariant, missingCase, missingBranch, noStep, notSymbol, notPointer,
    notLinkTarget, noSuchProcess, undefinedEntry, duplicateName, assertionFailed, roundLimit,
    machineFault, valueFault, patternFault, extractionFault, switchFault, projectionFault,
    invariantFault, namesFault]

def ofTitle? (title : String) : Option Kind := all.find? fun k => k.title == title

/-!
## Groups of kinds
-/

def isSymbol : Kind -> Bool
  | anonymous | numberSymbol | nameSymbol | joinSymbol | withinSymbol | joinBySymbol
  | markSymbol => true
  | _ => false

def isPattern : Kind -> Bool
  | ignorePattern | variablePattern | fieldsPattern | variantPattern => true
  | _ => false

/-- The kinds of faults that say only in what part of the interpretation they arose.  They have
nothing by which two of them could be compared, so each has one more part, which no host gives: a
number that tells it from all others. -/
def isGeneralFault : Kind -> Bool
  | machineFault | valueFault | patternFault | extractionFault | switchFault | projectionFault
  | invariantFault | namesFault => true
  | _ => false

/-- The general kinds that a fault belongs to, the narrowest first; nothing if it is no fault or
belongs to none. -/
def tiers : Kind -> List Kind
  | undefinedVariable | operandLeft | valueFault => [valueFault, machineFault]
  | notRecord | notVariant | fieldNotFound | variantMismatch | patternFault =>
      [patternFault, machineFault]
  | undefinedBox | extractionFault => [extractionFault, machineFault]
  | switchNotVariant | missingCase | switchFault => [switchFault, machineFault]
  | missingBranch | projectionFault => [projectionFault, machineFault]
  | noStep | notSymbol | notPointer | notLinkTarget | noSuchProcess | undefinedEntry
  | duplicateName | assertionFailed | machineFault => [machineFault]
  | invariantFault => [invariantFault]
  | namesFault => [namesFault]
  | _ => []

def isFault (k : Kind) : Bool := k = roundLimit || !k.tiers.isEmpty

def isMutable : Kind -> Bool
  | frame | running | world => true
  | k => k.isFault

/-- Whether objects of a kind can be keys.  What may change cannot, apart from general faults, which
are known by their identity. -/
def isKey (k : Kind) : Bool := !k.isMutable || k.isGeneralFault

end Kind

end PushValue
