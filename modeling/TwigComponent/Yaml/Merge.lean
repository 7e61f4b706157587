import TwigComponent.Ordered
import TwigComponent.Yaml.Basic

/-!
# Merging documents

An overlay is merged into a document mapping by mapping. Where both have a
mapping the keys of the overlay are merged one by one, and everywhere else the
value of the overlay replaces that of the document.
-/
namespace TwigComponent.Yaml

mutual

/-- The base with the overlay merged into it. -/
def merge : Yaml → Yaml → Yaml
  | .map entries, .map overlay => .map (mergeEntries entries overlay)
  | _, overlay => overlay

def mergeEntries : List (Yaml × Yaml) → List (Yaml × Yaml) → List (Yaml × Yaml)
  | entries, [] => entries
  | entries, (key, value) :: rest =>
    mergeEntries (Ordered.alter key (fun existing => merge existing value) value entries) rest

end

end TwigComponent.Yaml
