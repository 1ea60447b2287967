import HadcdAgent.Lib.Faults
import HadcdAgent.Lib.JsonDoc

/-!
# JSON files that are replaced

A value is written to a temporary file that then takes the place of the file proper. However
much of that comes to pass, who reads the file finds the old value or the new one.
-/

namespace Lib.JsonFile

open JsonText PyStr

variable {π : Type} [DecidableEq π]

def parse (fl : FloatText) (bytes : List UInt8) : Loads :=
  match decodeUtf8 bytes with
  | none => .notUtf8
  | some text => loads fl text

/-- `none` is a file that does not exist. -/
def read (fl : FloatText) (p : π) (d : Disk π UInt8) : Option Loads := (d.read p).map (parse fl)

/-- The dump is written with what follows it, and renamed. -/
def replaceSteps (fl : FloatText) (lay : Layout) (tail : Str) (path tmp : π) (v : Json) :
    List (FileStep π UInt8) :=
  FileStep.writeText tmp (encodeUtf8 (dumps fl lay 0 v ++ tail)) ++ [.rename tmp path]

variable {fl : FloatText} {lay : Layout} {tail : Str} {v : Json}

theorem loads_dumps_append (h : Sound fl v) (htail : Blank tail) :
    loads fl (dumps fl lay 0 v ++ tail) = .value v := by
  have hfollows : Follows tail := by
    have := @follows_blank tail [] htail nofun
    rwa [List.append_nil] at this
  have hscan : scanOnce fl (dumps fl lay 0 v ++ tail).length (dumps fl lay 0 v ++ tail) =
      some (v, tail) :=
    scanOnce_dumps v 0 _ tail h hfollows (by rw [List.length_append]; omega)
  have htailWs : skipWs tail = [] := by
    have := skipWs_blank htail []
    rwa [List.append_nil] at this
  rw [loads, ((starts_dumps h 0).append tail).skipWs, hscan]
  dsimp only
  rw [if_pos htailWs]

theorem parse_dumps (h : Sound fl v) (htail : Blank tail) :
    parse fl (encodeUtf8 (dumps fl lay 0 v ++ tail)) = .value v := by
  rw [parse, decodeUtf8_encodeUtf8]
  exact loads_dumps_append h htail

variable {path tmp : π} {d : Disk π UInt8}

omit [DecidableEq π] in
theorem length_replaceSteps (fl : FloatText) (lay : Layout) (tail : Str) (path tmp : π) (v : Json) :
    (replaceSteps fl lay tail path tmp v).length =
      (FileStep.writeText tmp (encodeUtf8 (dumps fl lay 0 v ++ tail))).length + 1 := by
  rw [replaceSteps, List.length_append, List.length_singleton]

theorem read_replaceSteps (h : Sound fl v) (htail : Blank tail) :
    read fl path (FileStep.run d (replaceSteps fl lay tail path tmp v)) = some (.value v) := by
  have hrename : (FileStep.run d (replaceSteps fl lay tail path tmp v)).read path =
      some (encodeUtf8 (dumps fl lay 0 v ++ tail)) := by
    rw [replaceSteps, FileStep.run_append]
    change (Disk.rename _ tmp path).read path = _
    rw [Disk.read_rename_target, FileStep.read_writeText]
  rw [read, hrename, Option.map_some, parse_dumps h htail]

/-- **The file changes with the last step, and with that one only.** -/
theorem read_take_replaceSteps (h : Sound fl v) (htail : Blank tail) (hne : path ≠ tmp) (n : ℕ) :
    read fl path (FileStep.run d ((replaceSteps fl lay tail path tmp v).take n)) =
      if n < (replaceSteps fl lay tail path tmp v).length then read fl path d
      else some (.value v) := by
  by_cases hn : n < (replaceSteps fl lay tail path tmp v).length
  · have hbefore := hn
    rw [length_replaceSteps] at hbefore
    rw [if_pos hn, replaceSteps, List.take_append_of_le_length (Nat.le_of_lt_succ hbefore), read,
      FileStep.read_run_of_not_touches, read]
    intro step hstep
    exact FileStep.not_touches_writeText hne _ step (List.mem_of_mem_take hstep)
  · rw [if_neg hn, List.take_of_length_le (Nat.not_lt.mp hn), read_replaceSteps h htail]

end Lib.JsonFile
