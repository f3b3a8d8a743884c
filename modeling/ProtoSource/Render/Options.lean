import ProtoSource.Descriptor.Options
import ProtoSource.Text.Layout
import ProtoSource.Text.Quoted

/-!
# Options in source text

The standard options that are set, as names and values in ascending order of number. The mark of a
map entry is not among them: map syntax stands for it.
-/

namespace ProtoSource.Render

open ProtoSource.Descriptor
open ProtoSource.Text

/-- A named number by its name, any other by its digits. -/
def choiceText (names : List (Int × String)) (number : Int) : String :=
  (names.lookup number).getD (toString number)

/-- The text of the value of a standard option. -/
def settingText (shape : SettingShape) : SettingValue → String
  | .text value => quote value
  | .flag value => if value then "true" else "false"
  | .choice number =>
    match shape with
    | .choice names => choiceText names number
    | _ => toString number

/-- The option that map syntax stands for. -/
def isStructural (spec : SettingSpec) : Bool :=
  spec.name == "map_entry"

/-- The standard options that are set, each with the text of its value. -/
def standardOptions {kind : OptionsKind} (options? : Option (Options kind)) :
    List (String × String) :=
  match options? with
  | none => []
  | some options =>
    (kind.settings.filter (!isStructural ·)).filterMap fun spec =>
      (options.settings.lookup spec.number).map fun value =>
        (spec.name, settingText spec.shape value)

/-- Options as statements. -/
def optionLines (options : List (String × String)) : List Item :=
  options.map fun (name, value) => .line ("option " ++ name ++ " = " ++ value ++ ";")

/-- Options in brackets after a declaration. -/
def bracketed (options : List (String × String)) : String :=
  if options.isEmpty then
    ""
  else
    " [" ++ String.intercalate ", " (options.map fun (name, value) => name ++ " = " ++ value) ++ "]"

end ProtoSource.Render
