import Std.Data.TreeMap
import CityCrew.Plan.Operator

/-!
# Bindings

The identifiers that a player's plans have bound, with their values.
-/

namespace CityCrew

abbrev Bindings := Std.TreeMap String Value

end CityCrew
