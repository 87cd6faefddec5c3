import LicenseHeader.Proofs.FileTree.Links

/-!
# Erasing

Without what stands at a location and below it, a tree has nothing there and nothing new elsewhere.
A path that ends in the tree ends at the same place in any larger tree; therefore it does not end
any more where its last step was erased.
-/

namespace LicenseHeader.FileTree

open LicenseHeader.Path (Component IsName)

variable {t u : FileTree} {here l m : Location} {e : Entry} {way : List Component}

/-! ### Smaller trees -/

end LicenseHeader.FileTree
