import Faultloggerd.Foundations.StdString
import Mathlib.Data.Int.Notation

/-! # The JSON stack of a thread

`StackJsonFormatter::FormatJsonThreadStack` makes the text of a thread from its JSON value and completes the native
frames of the value with what the offline parser finds.
-/
namespace Faultloggerd.Formatter
open List

/-- A value that `Json::Reader` has read. A real number is given by its text, and by its value where that is a `UInt64`;
the order of the members of an object is left to the writer. -/
inductive Json where
  | null
  | bool (b : Bool)
  | int (n : ℤ)
  | real (text : List Char) (uint64 : Option ℕ)
  | string (text : List Char)
  | array (values : List Json)
  | object (members : List (String × Json))

abbrev Members := List (String × Json)

namespace Json

/-- `asString`, of a value that is convertible to a string. -/
def asString : Json → Option (List Char)
  | .null => some []
  | .bool b => some (toString b).toList
  | .int n => some (toString n).toList
  | .real text _ | .string text => some text
  | .array _ | .object _ => none

def asUInt64 : Json → Option ℕ
  | .int n => if 0 ≤ n then some n.toNat else none
  | .real _ uint64 => uint64
  | _ => none

/-- The members of an object, or of null, which becomes an object when one is set. A member of another value is not
asked for without an exception. -/
def members : Json → Option Members
  | .null => some []
  | .object members => some members
  | _ => none

end Json

def jsonAsString (value : Json) : List Char := value.asString.getD []

namespace Members

def get (members : Members) (key : String) : Json := (members.lookup key).getD .null

def text (members : Members) (key : String) : List Char := jsonAsString (members.get key)

def isMember (members : Members) (key : String) : Bool := (members.lookup key).isSome

/-- `operator[]` of a value that can be changed: a member that is not there becomes null. -/
def reference (members : Members) (key : String) : Members :=
  if members.isMember key then members else members ++ [(key, .null)]

def set (members : Members) (key : String) (value : Json) : Members :=
  members.filter (fun m => m.1 ≠ key) ++ [(key, value)]

end Members

structure DfxFrame where
  index : ℕ
  relPc : ℕ
  mapName : List Char
  buildId : List Char
  funcOffset : ℕ
  funcName : List Char

/-- What the formatter uses: the offline parser, which keeps the files it has opened, `strtoull` in base 16 and
`Json::FastWriter`. -/
structure Tools (Parser : Type) where
  dfxOfflineParser : Bool → Parser
  parseSymbolWithFrame : DfxFrame → Parser → (Bool × DfxFrame) × Parser
  strtoull : List Char → ℕ
  write : List Json → List Char

/-- The ways in which a formatter does not return true: it returns false, or a value that is no object is asked for a
member. -/
inductive Failure where
  | refused
  | thrown

abbrev FormatM (Parser : Type) := StateT Parser (Except Failure)

def frameBufLen : ℕ := 1024

/-- What is printed of a string up to its first NUL. -/
def cStr (s : List Char) : List Char := s.takeWhile (· ≠ '\x00')

/-- `%02u` -/
def twoDigits (n : ℕ) : List Char := (if n < 10 then ['0'] else []) ++ (toString n).toList

def formatJsFrame (frame : Members) (frameIdx : ℕ) : List Char :=
  let part (s : List Char) : List Char := if s = [] then [] else ' ' :: s
  '#' :: twoDigits frameIdx ++ " at".toList ++ part (frame.text "symbol") ++ part (frame.text "packageName") ++
    if frame.text "file" = [] then []
    else " (".toList ++ frame.text "file" ++ [':'] ++ frame.text "line" ++ [':'] ++ frame.text "column" ++ [')']

section

variable {Parser : Type} (tools : Tools Parser) (onlyParseBuildId : Bool)

/-- `snprintf_s` fails when the text does not fit into the buffer. -/
def formatNativeFrame (value : Members) (frameIdx : ℕ) : FormatM Parser (Json × List Char) := do
  let value := (((value.reference "pc").reference "file").reference "buildId").reference "symbol"
  let pc := value.text "pc"
  let frame : DfxFrame := ⟨frameIdx, tools.strtoull (cStr pc), value.text "file", value.text "buildId",
    ((value.get "offset").asUInt64).getD 0, value.text "symbol"⟩
  let buf := '#' :: twoDigits frameIdx ++ " pc ".toList ++ cStr pc ++ [' '] ++
    if frame.mapName = [] then "Unknown".toList else cStr frame.mapName
  if buf.length ≥ frameBufLen then throw .refused
  let needed := if onlyParseBuildId then frame.buildId = [] else frame.funcName = []
  let (parsed, frame) ← if needed then modifyGet (tools.parseSymbolWithFrame frame) else pure (false, frame)
  let value := if parsed then
      ((value.set "buildId" (.string frame.buildId)).set "offset" (.int frame.funcOffset)).set "symbol"
        (.string frame.funcName)
    else value
  let symbol := if frame.funcName = [] then []
    else ['('] ++ frame.funcName ++ ['+'] ++ (toString frame.funcOffset).toList ++ [')']
  let buildId := if frame.buildId = [] then [] else ['('] ++ frame.buildId ++ [')']
  return (.object value, buf ++ symbol ++ buildId)

def formatFrame (frame : Json × ℕ) : FormatM Parser (Json × List Char) :=
  match frame.1.members with
  | none => throw .thrown
  | some members =>
    if members.isMember "line" then pure (frame.1, formatJsFrame members frame.2)
    else formatNativeFrame tools onlyParseBuildId members frame.2

def maxFrameNum : ℕ := 1000

def statInfo : List String := ["state", "utime", "stime", "priority", "nice", "clk"]

def isStatInfoValid (thread : Members) : Bool :=
  statInfo.all fun info => ((thread.lookup info).bind Json.asString).isSome

/-- `FormatJsonThreadStack`: the thread as it is afterwards, and what is appended to the text, which is nothing for a
thread without frames or with too many. -/
def formatJsonThreadStack (thread : Json) : FormatM Parser (Json × List Char) := do
  let some thread := thread.members | throw .thrown
  let thread := thread.reference "tid"
  let convertible := (thread.get "tid").asString.isSome
  let thread := if convertible then thread.reference "thread_name" else thread
  let title := if convertible && (thread.get "thread_name").asString.isSome then
      "Tid:".toList ++ thread.text "tid" ++ ", Name:".toList ++ thread.text "thread_name" ++ ['\n']
    else []
  let stat := if isStatInfoValid thread then
      ", ".toList.intercalate (statInfo.map fun info => info.toList ++ ['='] ++ thread.text info) ++ ['\n']
    else []
  match thread.lookup "frames" with
  | some (.array frames) =>
    if frames.length > maxFrameNum then return (.object thread, [])
    let formatted ← frames.zipIdx.mapM (formatFrame tools onlyParseBuildId)
    return (.object (thread.set "frames" (.array (formatted.map Prod.fst))),
      title ++ stat ++ formatted.flatMap fun frame => frame.2 ++ ['\n'])
  | _ => return (.object thread, [])

end

end Faultloggerd.Formatter
