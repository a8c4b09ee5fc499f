import Simula.Kind
import Simula.Ty
import Simula.Text.Quoted

/-!
# Errors

Errors end an operation. They fall into classes: values that the file format cannot hold,
files that break the format's rules, misuse of the syntax tree, and missing or rejected
units. Within a class each cause is a constructor, and one function gives the wording.

Mistakes in the compiled program are not errors in this sense; they are diagnostics.
-/

namespace Simula

/-- The number of a node in its tree. -/
abbrev NodeId := Nat

/-- The form in which a node number is shown. -/
def nodeName (id : NodeId) : String := "n" ++ toString id

/-- Ways in which a byte stream breaks the rules of the format. -/
inductive ProtocolFault
  | negativeCount (value : Int)
  | booleanByte (byte : UInt8)
  | lengthPrefix (value : Int)
  | brokenText
  | kindTag (tag : Int)
  | typeTag (byte : UInt8)
  | characterUnit (unit : UInt16)
  | unknownCode (what : String) (byte : UInt8)
  | missing (what : String)
  | notAModule (identifier : String) (kind : Kind)
  | undeclarable (kind : Kind)
  | declaredTwice (identifier : String)
  | reusedNumber (sequence : Int)
  | described (text : String)
  deriving DecidableEq, Repr

/-- Constants that the format has no place for. -/
inductive ConstantFault
  | wideCharacter (value : Char)
  | taggedConstant (tag : TypeTag)
  | described (text : String)
  deriving DecidableEq, Repr

/-- Ways in which a whole attribute file is unusable. -/
inductive FormatFault
  | endOfInput
  | version (found : Option String) (expected : String)
  | nullHeader
  | selfReference (entry : String)
  | wrongModule (entry : String) (found expected : Kind)
  | described (text : String)
  deriving DecidableEq, Repr

/-- Requests that the syntax tree or the class loader cannot serve. -/
inductive InternalFault
  | notInTree (id : NodeId)
  | notMaterialized (id : NodeId)
  | wrongLayout (expected found : Kind)
  | noPayload (kind : Kind)
  | sentinelLayout
  | unnamedParameter
  | noParameterList (kind : Kind)
  | unnamedSpecification
  | specificationOutsideClass
  | notASpecification (kind : Kind)
  | noStatementList (kind : Kind)
  | noLabelList (kind : Kind)
  | labelAfterReady (identifier : String)
  | notWritableAsModule (kind : Kind)
  | notAnExternalInList (kind : Kind)
  | notAModuleRecord (kind : Kind)
  | nullModule
  | notAnExternal (id : NodeId)
  | notAStatement (kind : Kind)
  | notAConnection
  | endlessNesting (id : NodeId)
  | gaveUp (passes : Nat) (unresolved : List String)
  | described (text : String)
  deriving DecidableEq, Repr

/-- Why an operation ended without a result. -/
inductive Error
  /-- The file system refused an operation. -/
  | io
  /-- A value does not fit in sixteen bits. -/
  | range (value : Int)
  | protocol (fault : ProtocolFault)
  | unsupportedConstant (fault : ConstantFault)
  /-- A reference to an object number that was never introduced. -/
  | linkage (sequence : Int)
  | format (fault : FormatFault)
  | internal (fault : InternalFault)
  | missingAttributeFile (entry : String)
  | missingLibrary (path : String)
  | classLoad (className message : String)
  | executionFailed (program : String) (code : Int)
  | aborted (phase : String) (errors : Nat)
  deriving DecidableEq, Repr

/-- A text padded on the left with zeros to at least `width` characters. -/
def zeroPadded (width : Nat) (digits : List Char) : String :=
  String.ofList (List.replicate (width - digits.length) '0' ++ digits)

/-- The wording of a broken rule. -/
def ProtocolFault.message : ProtocolFault → String
  | negativeCount v => "negative count " ++ toString v
  | booleanByte b => "boolean byte " ++ toString b
  | lengthPrefix v => "string length prefix " ++ toString v
  | brokenText => "string is not valid UTF-16"
  | kindTag t => "kind tag " ++ toString t ++ " is out of range"
  | typeTag b => "type tag " ++ toString b
  | characterUnit u => "character constant 0x" ++ zeroPadded 4 (Nat.toDigits 16 u.toNat)
  | unknownCode what b => what ++ " code " ++ toString b
  | missing what => what ++ " must not be null"
  | notAModule identifier k => "external " ++ identifier ++ " names a " ++ k.name
  | undeclarable k => k.name ++ " in a declaration list"
  | declaredTwice identifier => identifier ++ " declared twice"
  | reusedNumber n => "sequence number #" ++ toString n ++ " used twice"
  | described text => text

/-- The wording for a constant without a place. -/
def ConstantFault.message : ConstantFault → String
  | wideCharacter c =>
    "character U+" ++ zeroPadded 4 ((Nat.toDigits 16 c.toNat).map Char.toUpper) ++
      " is outside the BMP"
  | taggedConstant t => Coded.name t ++ " constant"
  | described text => text

/-- The wording for an unusable file. -/
def FormatFault.message : FormatFault → String
  | endOfInput => "unexpected end of attribute file"
  | version found expected =>
    let shown := match found with
      | some s => "Some(" ++ Text.quoted s ++ ")"
      | none => "None"
    "version " ++ shown ++ ", expected " ++ Text.quoted expected
  | nullHeader => "null string in the class hierarchy header"
  | selfReference entry => entry ++ " refers to itself through its external declarations"
  | wrongModule entry found expected =>
    entry ++ " holds a " ++ found.name ++ ", expected a " ++ expected.name
  | described text => text

/-- The wording for a request that cannot be served. -/
def InternalFault.message : InternalFault → String
  | notInTree id => "node " ++ nodeName id ++ " is not in the tree"
  | notMaterialized id => "node " ++ nodeName id ++ " has not been materialized"
  | wrongLayout expected found => expected.name ++ " codec called on " ++ found.name
  | noPayload k => k.name ++ " has no payload"
  | sentinelLayout => "sentinel kind dispatched to a node reader"
  | unnamedParameter => "parameter without identifier"
  | noParameterList k => k.name ++ " has no parameter list"
  | unnamedSpecification => "specification without identifier"
  | specificationOutsideClass => "specifications belong to classes"
  | notASpecification k => k.name ++ " is not a specification"
  | noStatementList k => k.name ++ " has no statement list"
  | noLabelList k => k.name ++ " has no label list"
  | labelAfterReady identifier =>
    "label " ++ identifier ++ " added after the label list was ready for coding"
  | notWritableAsModule k => "a " ++ k.name ++ " cannot be written as a module"
  | notAnExternalInList k => k.name ++ " in the external declaration list"
  | notAModuleRecord k => k.name ++ " where the module record was expected"
  | nullModule => "module read as null"
  | notAnExternal id => nodeName id ++ " is not an external declaration"
  | notAStatement k => k.name ++ " in statement position"
  | notAConnection => "inspect without a connection block"
  | endlessNesting id => "the nesting below node " ++ nodeName id ++ " does not end"
  | gaveUp passes unresolved =>
    "class loading gave up after " ++ toString passes ++ " passes; unresolved: " ++
      String.intercalate ", " unresolved
  | described text => text

namespace Error

/-- The wording of an error. -/
def message : Error → String
  | io => "i/o error"
  | range v => "value " ++ toString v ++ " does not fit in a 16-bit short"
  | protocol f => "attribute protocol error: " ++ f.message
  | unsupportedConstant f => "unsupported constant: " ++ f.message
  | linkage n =>
    "dangling object reference #" ++ toString n ++ ": attribute file is corrupt or truncated"
  | format f => "malformed attribute file: " ++ f.message
  | internal f => "internal compiler error: " ++ f.message
  | missingAttributeFile entry => "attribute file " ++ entry ++ " was not found"
  | missingLibrary path => "attribute library directory was not found at " ++ path
  | classLoad c m => "class loader rejected " ++ c ++ ": " ++ m
  | executionFailed p c => "execution of " ++ p ++ " failed with exit code " ++ toString c
  | aborted phase n => phase ++ " aborted after " ++ toString n ++ " error(s)"

/-- Whether the unit behind the error has to be compiled again. -/
def requiresRecompile : Error → Bool
  | protocol _ | format _ | linkage _ | unsupportedConstant _ => true
  | _ => false

end Error

end Simula
