import RelQuery.Error
import RelQuery.Text

/-!
# RelQuery.Settings

The settings of an engine.

Settings can also come as texts from the outside, one for each setting that is given
(`SettingTexts`). A text that cannot be read leaves its setting as it is, except that the switch for
verification is off unless its text is one of the words for on.
-/

namespace RelQuery

/-- How an equi-join finds the rows that match. -/
inductive JoinStrategy where
  /-- The right-hand side is sorted, and searched by bisection for each left-hand row. -/
  | sortedLookup
  /-- The whole right-hand side is looked at for each left-hand row, as for any other join. -/
  | nestedLoop
deriving DecidableEq, Repr, Inhabited

namespace JoinStrategy

/-- The strategy with this name, in any letter case and with blanks around it. -/
def ofName (s : String) : Except Error JoinStrategy :=
  match String.ofList (Text.lowerCase (Text.trim s.toList)) with
  | "sorted" | "sorted_lookup" => .ok sortedLookup
  | "nested_loop" | "brute_force" => .ok nestedLoop
  | name => .error (.unknownStrategy name)

end JoinStrategy

/-- The settings of an engine. -/
structure Settings where
  /-- Input rows between two progress reports of a long operation; zero for none. -/
  progressInterval : Nat
  /-- How equi-joins find the rows that match. -/
  strategy : JoinStrategy
  /-- Whether the declared order of an input is checked before a join relies on it. -/
  verifySorted : Bool
  /-- The row limit of queries that have none of their own. -/
  defaultLimit : Option Nat
deriving DecidableEq, Repr

namespace Settings

/-- The settings of an engine that is not told otherwise. -/
def default : Settings := ⟨100000, .sortedLookup, false, none⟩

instance : Inhabited Settings := ⟨default⟩

end Settings

/-- Settings given as texts. -/
structure SettingTexts where
  progressInterval : Option String
  strategy : Option String
  verifySorted : Option String
  defaultLimit : Option String

namespace Settings

/-- The words that turn a switch on. -/
def isOn (s : String) : Bool :=
  ["1", "true", "yes"].contains (String.ofList (Text.trim s.toList))

/-- The default settings, changed by the texts that can be read. -/
def ofTexts (t : SettingTexts) : Settings where
  progressInterval :=
    (t.progressInterval.bind fun s => Text.count? s.toList).getD default.progressInterval
  strategy :=
    (t.strategy.bind fun s => (JoinStrategy.ofName s).toOption).getD default.strategy
  verifySorted := (t.verifySorted.map isOn).getD default.verifySorted
  defaultLimit := (t.defaultLimit.bind fun s => Text.count? s.toList).or default.defaultLimit

end Settings

end RelQuery
