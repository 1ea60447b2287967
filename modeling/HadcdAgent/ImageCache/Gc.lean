import HadcdAgent.Lib.Shared

/-!
# The disk budget of the image cache

`ImageCacheManager.maybe_gc` and `_total_image_bytes` (`agent/image_cache.py`) on the
images of a Docker host. Images share layers; Docker reports for each image the sum of
its own.
-/

namespace HadcdAgent.ImageCache

open Lib

/-! ### The Docker host -/

/-- A local image; `used` when a container, running or stopped, refers to it. -/
structure Image (layer : Type) where
  layers : Finset layer
  tagged : Bool
  used : Bool

variable {layer : Type}

/-- `images.prune(filters={"dangling": True})`. -/
def pruneDangling (images : List (Image layer)) : List (Image layer) :=
  images.filter fun i => i.tagged || i.used

/-- `images.prune(filters={"dangling": False})`. -/
def pruneUnused (images : List (Image layer)) : List (Image layer) := images.filter Image.used

/-- How a request to prune ends: it raises before or after it was carried out, or not. -/
inductive Reply where
  | done
  | refused
  | lost
  deriving DecidableEq

def Reply.carry (r : Reply) (prune : List (Image layer) → List (Image layer))
    (images : List (Image layer)) : List (Image layer) :=
  match r with
  | .refused => images
  | .done | .lost => prune images

/-- Whether `client.df` and `client.images.list` answer. -/
structure Measure where
  df : Bool
  list : Bool

structure Docker where
  imports : Bool
  connects : Bool
  first : Measure
  dangling : Reply
  second : Measure
  unused : Reply

/-! ### The source -/

/-- The image's `Size`. -/
def Image.size (bytes : layer → ℕ) (i : Image layer) : ℕ := ∑ l ∈ i.layers, bytes l

/-- `_GIB` -/
def gib : ℚ := 1024 ^ 3

/-- `int(budget_gb * _GIB) if budget_gb > 0 else 0`; a float times a power of two is exact. -/
def budgetBytes (budgetGb : ℚ) : ℕ := if 0 < budgetGb then ⌊budgetGb * gib⌋₊ else 0

def imageBytes (bytes : layer → ℕ) (images : List (Image layer)) : ℕ :=
  (images.map (Image.size bytes)).sum

/-- `none` when it raises: `df` and the listing that stands in for it both do. -/
def totalImageBytes (bytes : layer → ℕ) (images : List (Image layer)) (m : Measure) : Option ℕ :=
  if m.df then some (imageBytes bytes images)
  else if m.list then some (imageBytes bytes images)
  else none

inductive Prune where
  | dangling
  | unused
  deriving DecidableEq

/-- The requests to prune that are sent, and the images that are left. -/
def maybeGc (bytes : layer → ℕ) (budgetGb : ℚ) (docker : Docker) (images : List (Image layer)) :
    List Prune × List (Image layer) :=
  if budgetBytes budgetGb = 0 then ([], images)
  else if !docker.imports || !docker.connects then ([], images)
  else
    match totalImageBytes bytes images docker.first with
    | none => ([], images)
    | some usage =>
      if usage ≤ budgetBytes budgetGb then ([], images)
      else
        let images' := docker.dangling.carry pruneDangling images
        if docker.dangling ≠ .done then ([.dangling], images')
        else
          match totalImageBytes bytes images' docker.second with
          | none => ([.dangling], images')
          | some usage' =>
            if usage' ≤ budgetBytes budgetGb then ([.dangling], images')
            else ([.dangling, .unused], docker.unused.carry pruneUnused images')

end HadcdAgent.ImageCache
