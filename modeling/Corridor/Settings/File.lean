import Corridor.Settings.Basic
import Corridor.Yaml.Document

/-!
# Settings Files

Settings as they are kept in a file: a document with the section `ranking`.
-/

namespace Corridor.Settings

/-- Where settings are looked for unless another place is named. -/
def defaultPath : String := "config/ranking.yml"

/-- The settings of the file at a path, given what it holds, or nothing if there is no such
file. -/
def load (path : String) : Option String → Except Fault Settings
  | none => .error (.fileMissing path)
  | some text => do ofDocument path (← Yaml.read text)

/-- The settings file that is delivered. -/
def delivered : String :=
  "# Ranking run tuning. Every key is optional; omitted keys use the defaults.\n" ++
  "ranking:\n" ++
  "  max_time_between_pings: 3600   # seconds\n" ++
  "  max_speed: 1000.0              # m/s, about what an airplane might fly\n" ++
  "  max_turn_rate: 10.0            # degrees per second\n" ++
  "  grid_divisions: 100\n" ++
  "  route_divisions: 100\n" ++
  "  skip_results: 0\n" ++
  "  max_results: 1000\n" ++
  "  sort_field: combined_score\n"

end Corridor.Settings
