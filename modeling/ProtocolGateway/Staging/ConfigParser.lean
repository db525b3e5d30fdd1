import ProtocolGateway.Lines
import ProtocolGateway.Lib.Dict
import Mathlib.Data.List.DropRight

/-!
# Reading a configuration file

What `configparser.ConfigParser` makes of the text of `config.cfg`, and the two readers on top of
it: `CustomConfigParser.get` for the gateway, `load_config` for the scanner. Both cut a value at
`#`, after `BasicInterpolation` has replaced its `%` sequences.

* A file is read line by line into a `Reading`: the options of each section so far, the option that
  an indented line continues, and how far that option is indented.
* `Contents` maps each section, and `DEFAULT`, to its options. The value of an option is the list of
  its lines, which `rawValue` joins.

`optionxform` is `str.lower`, which covers all of Unicode. It is a parameter here. An exception of
the parser is `none`.
-/

namespace ProtocolGateway

namespace ConfigParser

open Text (isSpace strip fileLines)

/-- `text.rstrip()`. -/
def rstrip (s : List Char) : List Char := s.rdropWhile isSpace

/-! ## Lines -/

/-- `_Line.clean`: a line without the blanks around it, and `none` for a comment. -/
def clean? (line : List Char) : Option (List Char) :=
  let text := strip line
  if text.head? = some '#' ∨ text.head? = some ';' then none else some text

/-- `SECTCRE`: what stands between a `[` at the start and the last `]` of a line. -/
def header? : List Char → Option (List Char)
  | '[' :: rest =>
    let header := rest.rdropWhile (· ≠ ']')
    if header.length < 2 then none else some header.dropLast
  | _ => none

/-- `OPTCRE`: what stands before and behind the first `=` or `:` of a line. -/
def option? (text : List Char) : Option (List Char × List Char) :=
  let name := text.takeWhile fun c => c ≠ '=' ∧ c ≠ ':'
  match text.drop name.length with
  | [] => none
  | _ :: value => some (rstrip name, strip value)

/-! ## Reading -/

/-- `parser.default_section`. -/
def defaultSection : String := "DEFAULT"

/-- The lines of each option's value, by section. -/
abbrev Contents := Dict String (Dict String (List (List Char)))

/-- `_ReadState`: where the reading of a file stands. -/
structure Reading where
  contents : Contents := Dict.empty.set defaultSection Dict.empty
  /-- the section the last header opened -/
  cursect : Option String := none
  /-- the option that an indented line continues -/
  optname : Option String := none
  indentLevel : Nat := 0

/-- The options of a section. -/
def Contents.options (contents : Contents) (s : String) : Dict String (List (List Char)) :=
  (contents.get? s).getD Dict.empty

namespace Reading

/-- Add a line to the value of the current option. -/
def append (st : Reading) (piece : List Char) : Reading :=
  match st.cursect, st.optname with
  | some s, some k =>
    let options := st.contents.options s
    { st with contents := st.contents.set s (options.set k ((options.get? k).getD [] ++ [piece])) }
  | _, _ => st

/-- `_handle_header`: a section may be opened once, `DEFAULT` any number of times. -/
def handleHeader (st : Reading) (indent : Nat) (name : String) : Option Reading :=
  if name = defaultSection then
    some { st with cursect := some name, optname := none, indentLevel := indent }
  else if name ∈ st.contents.keys then none
  else some { contents := st.contents.set name Dict.empty, cursect := some name, optname := none,
              indentLevel := indent }

variable (optionxform : String → String)

/-- `_handle_option`: an option may be set once in a section. -/
def handleOption (st : Reading) (indent : Nat) (s : String) (text : List Char) : Option Reading :=
  match option? text with
  | none | some ([], _) => none
  | some (name, value) =>
    let key := optionxform (String.ofList name)
    if key ∈ (st.contents.options s).keys then none
    else some { st with contents := st.contents.set s ((st.contents.options s).set key [value]),
                        optname := some key, indentLevel := indent }

/-- `_handle_rest`: a line that continues nothing is a header, or an option of a section. -/
def handleRest (st : Reading) (indent : Nat) (text : List Char) : Option Reading :=
  match header? text with
  | some name => st.handleHeader indent (String.ofList name)
  | none => st.cursect.bind fun s => st.handleOption optionxform indent s text

/-- What the parser does with one line. -/
def readLine (st : Reading) (line : List Char) : Option Reading :=
  match clean? line with
  | none => some st
  | some [] => some (st.append [])
  | some text =>
    let indent := (line.takeWhile isSpace).length
    if st.cursect.isSome ∧ st.optname.isSome ∧ st.indentLevel < indent then some (st.append text)
    else st.handleRest optionxform indent text

end Reading

variable (optionxform : String → String)

/-- `parser.read`. -/
def read (text : List Char) : Option Contents :=
  ((fileLines text).foldlM (Reading.readLine optionxform) {}).map Reading.contents

/-- `_join_multiline_values`. -/
def rawValue (pieces : List (List Char)) : List Char := rstrip (['\n'].intercalate pieces)

/-! ## Interpolation -/

/-- A piece of a value that has a `%` in it. -/
inductive Token
  | char (c : Char)
  | reference (name : List Char)

/-- Split a value at its `%%` and `%(name)s`; any other `%` is an error. -/
def tokens : List Char → Option (List Token)
  | [] => some []
  | '%' :: '%' :: cs => (tokens cs).map (Token.char '%' :: ·)
  | '%' :: '(' :: cs =>
    let name := cs.takeWhile (· ≠ ')')
    match _hcs : cs.drop name.length with
    | ')' :: 's' :: rest =>
      if name = [] then none else (tokens rest).map (Token.reference name :: ·)
    | _ => none
  | '%' :: _ => none
  | c :: cs => (tokens cs).map (Token.char c :: ·)
termination_by cs => cs.length
decreasing_by
  · simp only [List.length_cons]; omega
  · have hlen := congrArg List.length _hcs
    simp only [List.length_drop, List.length_cons] at hlen ⊢
    omega
  · simp only [List.length_cons]; omega

/-- What a piece stands for, given what the options stand for. -/
def Token.expand (lookup : String → Option (List Char)) : Token → Option (List Char)
  | .char c => some [c]
  | .reference name => lookup (String.ofList name)

/-- `_interpolate_some`, where values may refer to each other to the given depth. -/
def interpolate (values : String → Option (List Char)) : Nat → List Char → Option (List Char)
  | 0, raw => if '%' ∈ raw then none else some raw
  | depth + 1, raw =>
    if '%' ∈ raw then
      (tokens raw).bind fun ts =>
        (ts.mapM (Token.expand fun name =>
          (values (optionxform name)).bind (interpolate values depth))).map List.flatten
    else some raw

/-- `MAX_INTERPOLATION_DEPTH`. -/
def maxInterpolationDepth : Nat := 10

/-! ## Lookups -/

namespace Contents

variable (contents : Contents)

/-- `parser.sections()`. -/
def sections : List String := contents.keys.filter (· ≠ defaultSection)

/-- `_unify_values`: the options of a section over those of `DEFAULT`. -/
def unify (s : String) : Dict String (List (List Char)) :=
  (contents.options defaultSection).update (contents.options s).items

/-- The value of an option before interpolation. -/
def raw? (s : String) (key : String) : Option (List Char) :=
  ((contents.unify s).get? key).map rawValue

/-- The value of an option after interpolation. -/
def value? (s : String) (key : String) : Option (List Char) :=
  (contents.raw? s key).bind (interpolate optionxform (contents.raw? s) maxInterpolationDepth)

/-- `ConfigParser.get`. -/
def parserGet (s : String) (option : String) : Option (List Char) :=
  if s ∈ contents.keys then contents.value? optionxform s (optionxform option) else none

/-- `parser.items(section)`. -/
def items (s : String) : Option (List (String × List Char)) :=
  (contents.unify s).keys.mapM fun key =>
    (contents.value? optionxform s key).map fun value => (key, value)

end Contents

/-- `value.split("#")[0].strip()`. -/
def cutComment (value : List Char) : List Char := strip (value.takeWhile (· ≠ '#'))

/-- `CustomConfigParser.get` on a file that was read. -/
def customGet (contents : Contents) (s option : String) : Option String :=
  (contents.parserGet optionxform s option).map fun value =>
    let value := strip value
    String.ofList (if '#' ∈ value then cutComment value else value)

/-- The settings that are no longer supported. -/
def removedKeys : List String := ["analyze_protocol", "analyze_protocol_save_load"]

/-- One section of `load_config`. -/
def loadSection (contents : Contents) (s : String) : Option (Dict String String) :=
  (contents.items optionxform s).map fun items =>
    Dict.empty.update ((items.filter fun kv => kv.1 ∉ removedKeys).map fun kv =>
      (kv.1, String.ofList (cutComment kv.2)))

/-- What is read from a file: the settings of each section. -/
abbrev Config := Dict String (Dict String String)

/-- A setting of a configuration. -/
def Config.setting? (config : Config) (s k : String) : Option String :=
  (config.get? s).bind fun options => options.get? k

/-- `load_config` on the text of a file. -/
def loadConfig (text : List Char) : Option Config :=
  (read optionxform text).bind fun contents =>
    (contents.sections.mapM fun s =>
      (loadSection optionxform contents s).map fun options => (s, options)).map Dict.empty.update

end ConfigParser

end ProtocolGateway
