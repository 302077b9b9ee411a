import Rewind.Log.Level

/-!
The journal of a run: records in the order in which they were made, each with its level and the
part of the harness that made it. Which of them are shown is up to the reader's levels.
-/
namespace Rewind.Log

/-- The parts of a harness that keep the journal. -/
inductive Site where
  | tracking
  | monitor
  | normalization
  | harness
  | benchmark
  deriving DecidableEq, Repr

/-- The module name by which a specification of levels selects a part. -/
def Site.module : Site → String
  | .tracking => "uffd"
  | .monitor => "monitor"
  | .normalization => "address_space"
  | .harness => "harness"
  | .benchmark => "run_command"

structure Record where
  level : Level
  site : Site
  text : String
  deriving DecidableEq, Repr

def Record.line (r : Record) : String := s!"[{r.level.name} {r.site.module}] {r.text}\n"

/-- Records, the latest first. -/
structure Journal where
  latest : List Record
  deriving DecidableEq, Repr

namespace Journal

def empty : Journal := ⟨[]⟩

def add (j : Journal) (level : Level) (site : Site) (text : String) : Journal :=
  ⟨⟨level, site, text⟩ :: j.latest⟩

/-- The records in the order in which they were made. -/
def toList (j : Journal) : List Record := j.latest.reverse

def shown (j : Journal) (levels : Levels) : List Record :=
  j.toList.filter fun r => levels.writes r.level r.site.module

end Rewind.Log.Journal
