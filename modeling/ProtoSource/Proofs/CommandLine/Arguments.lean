import Mathlib.Data.List.Nodup
import Mathlib.Data.List.TakeWhile
import ProtoSource.CommandLine.Arguments

/-!
# The forms of a command line

Options are given by arguments in one of a few forms, each of which says what it gives.
What is read from arguments is what they give, and all arguments of these forms are read.
So a command line is taken for the command `render` exactly if it has the word for it
between options in these forms, and the paths and settings are those that they give.
-/

namespace ProtoSource.CommandLine

variable {specs : List OptionSpec}

end ProtoSource.CommandLine
