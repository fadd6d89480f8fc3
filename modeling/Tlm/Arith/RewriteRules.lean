import Tlm.Arith.RewriteRule

set_option autoImplicit false

namespace Tlm.Arith.RewriteSimplifier

abbrev x : Pattern := .expr .x
abbrev y : Pattern := .expr .y
abbrev z : Pattern := .expr .z
abbrev b1 : Pattern := .expr .b1
abbrev b2 : Pattern := .expr .b2
abbrev s1 : Pattern := .expr .s1
abbrev s2 : Pattern := .expr .s2
abbrev c1 : Pattern := .const .c1
abbrev c2 : Pattern := .const .c2
abbrev c3 : Pattern := .const .c3

instance : Add Pattern := ⟨.binary .add⟩
instance : Sub Pattern := ⟨.binary .sub⟩
instance : Mul Pattern := ⟨.binary .mul⟩
instance : Min Pattern := ⟨.binary .min⟩
instance : Max Pattern := ⟨.binary .max⟩
instance (n : Nat) : OfNat Pattern n := ⟨.lit n⟩

def truncdiv : Pattern → Pattern → Pattern := .binary .div
def truncmod : Pattern → Pattern → Pattern := .binary .mod
def floordiv : Pattern → Pattern → Pattern := .binary .floorDiv
def floormod : Pattern → Pattern → Pattern := .binary .floorMod

section

variable (sources : List Pattern) (result : Pattern)

def tryRewrite (admitted : Admitted sources result [] none none := by decide) : Rule :=
  ⟨sources, result, [], false, none, none, admitted⟩

def tryRecursiveRewrite (admitted : Admitted sources result [] none none := by decide) : Rule :=
  ⟨sources, result, [], true, none, none, admitted⟩

variable (checks : List Check)

def tryRewriteIf (admitted : Admitted sources result checks none none := by decide) : Rule :=
  ⟨sources, result, checks, false, none, none, admitted⟩

def tryRecursiveRewriteIf (admitted : Admitted sources result checks none none := by decide) : Rule :=
  ⟨sources, result, checks, true, none, none, admitted⟩

-- A rule that needs `0 ≤ x + k` and does not check it.
def tryRewriteAssuming (k : Consts → Int)
    (admitted : Admitted sources result checks none (some k) := by decide) : Rule :=
  ⟨sources, result, checks, false, none, some k, admitted⟩

end

def opposite : List Check :=
  [.computes fun c => -c .c2, .cond fun c => c .c1 = -c .c2]

def nonzero : List Check :=
  [.cond fun c => c .c1 ≠ 0]

def product : List Check :=
  [.cond fun c => c .c1 ≠ 0, .computes fun c => c .c1 * c .c2,
    .cond fun c => c .c3 = c .c1 * c .c2]

def multiple : List Check :=
  [.cond fun c => 0 < c .c2, .cond fun c => (c .c1).tmod (c .c2) = 0]

def nonnegMultiple : List Check :=
  .cond (fun c => 0 ≤ c .c1) :: multiple

def posMultiple : List Check :=
  .cond (fun c => 0 < c .c1) :: multiple

def divides : List Check :=
  [.cond fun c => 0 < c .c1, .cond fun c => 0 < c .c2,
    .cond fun c => (c .c2).tmod (c .c1) = 0]

def roundsUp : List Check :=
  [.cond fun c => 0 < c .c2, .computes fun c => c .c1 + 1, .cond fun c => c .c1 + 1 = c .c2]

def nonneg (p : Pattern) : Check :=
  .greaterEqual p fun _ => 0

def addCancellation : List Rule :=
  [tryRewrite [(x - y) + y] x,
    tryRewrite [x + (y - x)] y,
    tryRewrite [(x - y) + (y - z)] (x - z),
    tryRewrite [(x - y) + (z - x)] (z - y),
    tryRewrite [min x (y - z) + z] (min (x + z) y),
    tryRewrite [min (x - z) y + z] (min x (y + z)),
    tryRewrite [max x (y - z) + z] (max (x + z) y),
    tryRewrite [max (x - z) y + z] (max x (y + z)),
    tryRewriteIf [min x (y + z * c1) + z * c2] (min (x + z * c2) y) opposite,
    tryRewriteIf [max x (y + z * c1) + z * c2] (max (x + z * c2) y) opposite,
    tryRewriteIf [min (y + z * c1) x + z * c2] (min (x + z * c2) y) opposite,
    tryRewriteIf [max (y + z * c1) x + z * c2] (max (x + z * c2) y) opposite,
    tryRewrite [max x y + min x y, min x y + max x y, max x y + min y x, min x y + max y x]
      (x + y),
    tryRewriteIf [min x (y + c1) + c2] (min (x + c2) y) opposite,
    tryRewriteIf [min (x + c1) y + c2] (min x (y + c2)) opposite,
    tryRewriteIf [max x (y + c1) + c2] (max (x + c2) y) opposite,
    tryRewriteIf [max (x + c1) y + c2] (max x (y + c2)) opposite]

def addFolding : List Rule :=
  [tryRewrite [(x + c1) + c2] (x + (c1 + c2)),
    tryRewrite [x + x] (x * 2),
    tryRewrite [x * y + x, y * x + x, x + y * x, x + x * y] (x * (y + 1)),
    tryRewrite [x * y + x * z, y * x + x * z, x * y + z * x, y * x + z * x] (x * (y + z))]

def addDivMod : List Rule :=
  [tryRewrite [truncdiv x c1 * c1 + truncmod x c1] x,
    tryRewrite [floordiv x y * y + floormod x y, y * floordiv x y + floormod x y,
      floormod x y + floordiv x y * y, floormod x y + y * floordiv x y] x,
    tryRewriteIf [floordiv (floormod x c2 + c1) c2 + floordiv x c2] (floordiv (x + c1) c2)
      [.cond fun c => 0 < c .c2],
    tryRecursiveRewrite [floordiv x 2 + floormod x 2] (floordiv (x + 1) 2),
    tryRewriteIf [floormod (x + c1) 2 + floormod x 2] 1
      [.cond fun c => Arith.floormod (c .c1) 2 = 1],
    tryRewriteIf [floormod x 2 + floormod (x + c1) 2] 1
      [.cond fun c => Arith.floormod (c .c1) 2 = 1]]

def addCanonical : List Rule :=
  [tryRecursiveRewrite [x + (c1 - y), (c1 - y) + x] ((x - y) + c1),
    tryRecursiveRewrite [(x + c1) + y, x + (c1 + y), x + (y + c1)] ((x + y) + c1),
    tryRecursiveRewrite [x + max y z] (max y z + x),
    tryRecursiveRewrite [x + min y z] (min y z + x),
    tryRecursiveRewrite [truncmod y c1 + x * c1] (x * c1 + truncmod y c1),
    tryRecursiveRewrite [floormod y c1 + x * c1] (x * c1 + floormod y c1)]

def addRules : List Rule :=
  addCancellation ++ addFolding ++ addDivMod ++ addCanonical

def subCancellation : List Rule :=
  [tryRewrite [(x + y) - y, (y + x) - y] x,
    tryRewrite [x - (y + x), x - (x + y)] (0 - y),
    tryRewrite [min x y - y, x - max y x] (min (x - y) 0),
    tryRewrite [x - max x y, min y x - y] (min 0 (x - y)),
    tryRewrite [max x y - y, x - min y x] (max (x - y) 0),
    tryRewrite [x - min x y, max y x - y] (max 0 (x - y)),
    tryRewrite [x - x] 0,
    tryRewrite [x * y - x, y * x - x] (x * (y - 1)),
    tryRewrite [x - y * x, x - x * y] (x * (1 - y)),
    tryRewrite [x * y - x * z, y * x - x * z, x * y - z * x, y * x - z * x] (x * (y - z)),
    tryRewrite [(x + c1) - c2] (x + (c1 - c2)),
    tryRewrite [(c1 - x) - (c2 - y)] ((y - x) + (c1 - c2)),
    tryRewrite [(x + y) - (x + z), (x + y) - (z + x), (y + x) - (z + x), (y + x) - (x + z)]
      (y - z)]

def subMinMax : List Rule :=
  [tryRewrite [min (x + y) z - x, min (y + x) z - x] (min y (z - x)),
    tryRewrite [min z (x + y) - x, min z (y + x) - x] (min (z - x) y),
    tryRewrite [max (x + y) z - x, max (y + x) z - x] (max y (z - x)),
    tryRewrite [max z (x + y) - x, max z (y + x) - x] (max (z - x) y),
    tryRewrite [x - min (x + y) z, x - min (y + x) z] (max (0 - y) (x - z)),
    tryRewrite [x - min z (x + y), x - min z (y + x)] (max (x - z) (0 - y)),
    tryRewrite [x - max (x + y) z, x - max (y + x) z] (min (0 - y) (x - z)),
    tryRewrite [x - max z (x + y), x - max z (y + x)] (min (x - z) (0 - y)),
    tryRewrite [min x y - min y x] 0,
    tryRewrite [max x y - max y x] 0,
    tryRewriteIf [min b1 b2 - min s1 s2, min b1 b2 - min s2 s1] (b1 - s1)
      [.equalZero ((b1 - s1) - (b2 - s2))],
    tryRewriteIf [max b1 b2 - max s1 s2, max b1 b2 - max s2 s1] (b1 - s1)
      [.equalZero ((b1 - s1) - (b2 - s2))]]

def subTruncDiv : List Rule :=
  [tryRewriteIf [x - truncdiv x c1 * c1] (truncmod x c1) nonzero,
    tryRewriteIf [truncdiv x c1 * c1 - x] (0 - truncmod x c1) nonzero,
    tryRewriteIf [x - truncdiv (x + y) c1 * c1] (truncmod (x + y) c1 - y) nonzero,
    tryRewriteIf [truncdiv (x + y) c1 * c1 - x] (y - truncmod (x + y) c1) nonzero,
    tryRewriteIf [x - truncdiv (x - y) c1 * c1] (truncmod (x - y) c1 + y) nonzero,
    tryRewriteIf [truncdiv (x - y) c1 * c1 - x] (0 - truncmod (x - y) c1 - y) nonzero,
    tryRewriteIf [x * c2 - truncdiv x c1 * c3] (truncmod x c1 * c2) product,
    tryRewriteIf [truncdiv x c1 * c3 - x * c2] (0 - truncmod x c1 * c2) product,
    tryRewriteIf [x * c2 - truncdiv (x + y) c1 * c3] ((truncmod (x + y) c1 - y) * c2) product,
    tryRewriteIf [truncdiv (x + y) c1 * c3 - x * c2] ((y - truncmod (x + y) c1) * c2) product,
    tryRewriteIf [x * c2 - truncdiv (x - y) c1 * c3] ((truncmod (x - y) c1 + y) * c2) product,
    tryRewriteIf [truncdiv (x - y) c1 * c3 - x * c2] ((0 - truncmod (x - y) c1 - y) * c2) product]

-- The first rule also needs `0 ≤ x + floormod(c2, c3)`: `0 ≤ x + c2` does not give the remainder
-- a sign.
def subTruncDifference : List Rule :=
  [tryRewriteAssuming [truncdiv (x + c1) c3 - truncdiv (x + c2) c3]
      (truncdiv (truncmod (x + floormod c2 c3) c3 + (c1 - c2)) c3)
      [.computes fun c => -c .c2, .greaterEqual x fun c => -c .c2,
        .cond fun c => c .c2 ≤ c .c1 ∧ 0 < c .c3]
      fun c => Arith.floormod (c .c2) (c .c3),
    tryRewriteIf [truncdiv (x + c1) c3 - truncdiv x c3] (truncdiv (truncmod x c3 + c1) c3)
      [nonneg x, .cond fun c => 0 ≤ c .c1 ∧ 0 < c .c3]]

def subFloorRemainder : List Rule :=
  [tryRewriteIf [x - floordiv x c1 * c1] (floormod x c1) nonzero,
    tryRewriteIf [floordiv x c1 * c1 - x] (0 - floormod x c1) nonzero,
    tryRewriteIf [x - floordiv (x + y) c1 * c1] (floormod (x + y) c1 - y) nonzero,
    tryRewriteIf [floordiv (x + y) c1 * c1 - x] (y - floormod (x + y) c1) nonzero,
    tryRewriteIf [x - floordiv (x - y) c1 * c1] (floormod (x - y) c1 + y) nonzero,
    tryRewriteIf [floordiv (x - y) c1 * c1 - x] (0 - floormod (x - y) c1 - y) nonzero]

def subFloorHalves : List Rule :=
  [tryRecursiveRewrite [floordiv (x + c1) 2 - floordiv (x + c2) 2]
      (floormod x 2 * (floormod c1 2 - floormod c2 2) + (floordiv c1 2 - floordiv c2 2)),
    tryRecursiveRewrite [floordiv x 2 - floordiv (x + c2) 2]
      (floormod x 2 * (0 - floormod c2 2) - floordiv c2 2),
    tryRecursiveRewrite [floordiv (x + c1) 2 - floordiv x 2]
      (floormod x 2 * floormod c1 2 + floordiv c1 2)]

def subFloorProduct : List Rule :=
  [tryRewriteIf [x * c2 - floordiv x c1 * c3] (floormod x c1 * c2) product,
    tryRewriteIf [floordiv x c1 * c3 - x * c2] (0 - floormod x c1 * c2) product,
    tryRewriteIf [x * c2 - floordiv (x + y) c1 * c3] ((floormod (x + y) c1 - y) * c2) product,
    tryRewriteIf [floordiv (x + y) c1 * c3 - x * c2] ((y - floormod (x + y) c1) * c2) product,
    tryRewriteIf [x * c2 - floordiv (x - y) c1 * c3] ((floormod (x - y) c1 + y) * c2) product,
    tryRewriteIf [floordiv (x - y) c1 * c3 - x * c2] ((0 - floormod (x - y) c1 - y) * c2) product]

def subFloorDifference : List Rule :=
  [tryRecursiveRewrite [floordiv (x + 1) 2 - floormod x 2] (floordiv x 2),
    tryRewriteIf [floordiv (x + c1) c3 - floordiv (x + c2) c3]
      (floordiv (floormod (x + floormod c2 c3) c3 + (c1 - c2)) c3) [.cond fun c => 0 < c .c3],
    tryRewriteIf [floordiv (x + c1) c3 - floordiv x c3] (floordiv (floormod x c3 + c1) c3)
      [.cond fun c => 0 < c .c3]]

def subCanonical : List Rule :=
  [tryRewrite [x - c1] (x + (0 - c1)),
    tryRecursiveRewrite [(x + c1) - y] ((x - y) + c1),
    tryRecursiveRewrite [x - (y + c1)] ((x - y) + (0 - c1)),
    tryRecursiveRewrite [x - (y - z)] ((x + z) - y),
    tryRecursiveRewrite [x - y * c1] (x + y * (0 - c1))]

def subRules : List Rule :=
  subCancellation ++ subMinMax ++ subTruncDiv ++ subTruncDifference ++ subFloorRemainder ++
    subFloorHalves ++ subFloorProduct ++ subFloorDifference ++ subCanonical

def mulRules : List Rule :=
  [tryRewrite [(x + c1) * c2] (x * c2 + c1 * c2),
    tryRewrite [(x * c1) * c2] (x * (c1 * c2)),
    tryRewrite [min x y * max x y, max x y * min x y] (x * y),
    tryRewriteIf [floordiv (x - floormod x c2) c1 * c1] (x - floormod x c2) opposite,
    tryRecursiveRewrite [x * (c1 * y)] ((x * y) * c1),
    tryRecursiveRewrite [c1 * x] (x * c1),
    tryRecursiveRewriteIf [(x - y) * c1] ((y - x) * (0 - c1)) [.cond fun c => c .c1 < 0]]

def divFolding : List Rule :=
  [tryRewrite [truncdiv c1 c2] (.num fun c => (c .c1).tdiv (c .c2)),
    tryRewriteIf [truncdiv (truncdiv x c1) c2] (truncdiv x (c1 * c2))
      [.cond fun c => 0 < c .c1 ∧ 0 < c .c2],
    tryRewriteIf [truncdiv (truncdiv x c1 + c2) c3] (truncdiv (x + c1 * c2) (c1 * c3))
      [.cond fun c => 0 < c .c1 ∧ 0 ≤ c .c2 ∧ 0 < c .c3, nonneg x],
    tryRewriteIf [truncdiv (x * c1) c2] (x * truncdiv c1 c2) posMultiple,
    tryRewriteIf [truncdiv (x * c1) c2] (truncdiv x (truncdiv c2 c1)) divides,
    tryRewrite [truncdiv x x] 1,
    tryRewrite [truncdiv (x * c1) x, truncdiv (c1 * x) x] c1]

def divSplit : List Rule :=
  [tryRewriteIf [truncdiv (x * c1 + y) c2] (x * truncdiv c1 c2 + truncdiv y c2)
      (nonnegMultiple ++ [nonneg x, nonneg y]),
    tryRewriteIf [truncdiv (min (x * c1) y) c2] (min (x * truncdiv c1 c2) (truncdiv y c2))
      (nonnegMultiple ++ [nonneg x, nonneg y]),
    tryRewriteIf [truncdiv (max (x * c1) y) c2] (max (x * truncdiv c1 c2) (truncdiv y c2))
      (nonnegMultiple ++ [nonneg x, nonneg y]),
    tryRewriteIf [truncdiv (y + x * c1) c2] (truncdiv y c2 + x * truncdiv c1 c2)
      (nonnegMultiple ++ [nonneg x, nonneg y]),
    tryRewriteIf [truncdiv (min y (x * c1)) c2] (min (truncdiv y c2) (x * truncdiv c1 c2))
      (nonnegMultiple ++ [nonneg x, nonneg y]),
    tryRewriteIf [truncdiv (max y (x * c1)) c2] (max (truncdiv y c2) (x * truncdiv c1 c2))
      (nonnegMultiple ++ [nonneg x, nonneg y]),
    tryRewriteIf [truncdiv (x * c1 + y + z) c2] (x * truncdiv c1 c2 + truncdiv (y + z) c2)
      (nonnegMultiple ++ [nonneg x, nonneg (y + z)]),
    tryRewriteIf [truncdiv (x * c1 - y + z) c2] (x * truncdiv c1 c2 + truncdiv (z - y) c2)
      (nonnegMultiple ++ [nonneg x, nonneg (z - y)]),
    tryRewriteIf [truncdiv (x * c1 + y - z) c2] (x * truncdiv c1 c2 + truncdiv (y - z) c2)
      (nonnegMultiple ++ [nonneg x, nonneg (y - z)]),
    tryRewriteIf [truncdiv (y + x * c1 + z) c2] (x * truncdiv c1 c2 + truncdiv (y + z) c2)
      (posMultiple ++ [nonneg x, nonneg (y + z)]),
    tryRewriteIf [truncdiv (x + c1) c2] (truncdiv x c2 + truncdiv c1 c2)
      (posMultiple ++ [nonneg x])]

def divCancellation : List Rule :=
  [tryRewriteIf [truncdiv (x + y) x, truncdiv (y + x) x] (truncdiv y x + 1) [nonneg x, nonneg y],
    tryRewriteIf [truncdiv ((x + y) + z) x, truncdiv ((y + x) + z) x, truncdiv (y + (z + x)) x,
      truncdiv (y + (x + z)) x] (truncdiv (y + z) x + 1) [nonneg x, nonneg (y + z)],
    tryRewriteIf [truncdiv (x * y) y, truncdiv (y * x) y] x [nonneg x, nonneg y],
    tryRewriteIf [truncdiv (x * z + y) z, truncdiv (z * x + y) z] (x + truncdiv y z)
      [nonneg x, nonneg y, nonneg z],
    tryRewriteIf [truncdiv (y + x * z) z, truncdiv (y + z * x) z] (truncdiv y z + x)
      [nonneg x, nonneg y, nonneg z]]

def divRules : List Rule :=
  divFolding ++ divSplit ++ divCancellation

-- The modular analysis that follows is `modModular`.
def modRules : List Rule :=
  [tryRewriteIf [truncmod (x * c1) c2] 0
      [.cond fun c => c .c2 ≠ 0, .computes fun c => (c .c1).tdiv (c .c2),
        .cond fun c => (c .c1).tmod (c .c2) = 0],
    tryRewriteIf [truncmod (x * c1 + y) c2] (truncmod y c2)
      (multiple ++ [nonneg (x * c1), nonneg y]),
    tryRewriteIf [truncmod (x + c1) c2] (truncmod x c2)
      [.cond fun c => 0 < c .c2, .cond fun c => 0 ≤ c .c1 ∧ (c .c1).tmod (c .c2) = 0, nonneg x],
    tryRewriteIf [truncmod (x + y * c1) c2] (truncmod x c2)
      (multiple ++ [nonneg x, nonneg (y * c1)]),
    tryRecursiveRewriteIf [truncmod x c1] (truncmod x (.num fun c => -c .c1))
      [.cond fun c => c .c1 < 0]]

-- `floorDivResidue` is tried between these and the rest.
def floorDivNested : List Rule :=
  [tryRewriteIf [floordiv (floordiv x c1) c2] (floordiv x (c1 * c2))
      [.cond fun c => 0 < c .c1 ∧ 0 < c .c2],
    tryRewriteIf [floordiv (floordiv x c1 + c2) c3] (floordiv (x + c1 * c2) (c1 * c3))
      [.cond fun c => 0 < c .c1 ∧ 0 < c .c3]]

def floorDivSplit : List Rule :=
  [tryRewrite [floordiv x x] 1,
    tryRewrite [floordiv (x * c1) x, floordiv (c1 * x) x] c1,
    tryRewrite [floordiv (floormod x 2 + 1) 2] (floormod x 2),
    tryRewriteIf [floordiv (min (x * c1) y) c2] (min (x * floordiv c1 c2) (floordiv y c2)) multiple,
    tryRewriteIf [floordiv (max (x * c1) y) c2] (max (x * floordiv c1 c2) (floordiv y c2)) multiple,
    tryRewriteIf [floordiv (min y (x * c1)) c2] (min (floordiv y c2) (x * floordiv c1 c2)) multiple,
    tryRewriteIf [floordiv (max y (x * c1)) c2] (max (floordiv y c2) (x * floordiv c1 c2)) multiple,
    tryRewriteIf [floordiv (x * c1 + y + z) c2] (x * floordiv c1 c2 + floordiv (y + z) c2)
      multiple,
    tryRewriteIf [floordiv (x * c1 + y + z) c2] (floordiv x (floordiv c2 c1))
      (divides ++ [.equalZero (floordiv (y + z) c1)]),
    tryRewriteIf [floordiv (x * c1 - y + z) c2, floordiv (x * c1 + z - y) c2]
      (x * floordiv c1 c2 + floordiv (z - y) c2) multiple,
    tryRewriteIf [floordiv (y + x * c1 + z) c2] (x * floordiv c1 c2 + floordiv (y + z) c2)
      multiple,
    tryRewriteIf [floordiv (x + c1) c2] (floordiv x c2 + floordiv c1 c2) multiple]

def floorDivCancellation : List Rule :=
  [tryRewriteIf [floordiv (x * c1) (x * c2)] (floordiv c1 c2) [.cond fun c => 0 < c .c2],
    tryRewriteIf [floordiv (x + y) x, floordiv (y + x) x] (floordiv y x + 1) [nonneg x],
    tryRewriteIf [floordiv ((x + y) + z) x, floordiv ((y + x) + z) x, floordiv (y + (z + x)) x,
      floordiv (y + (x + z)) x] (floordiv (y + z) x + 1) [nonneg x],
    tryRewriteIf [floordiv (x * y) y, floordiv (y * x) y] x [nonneg y],
    tryRewriteIf [floordiv (x * z + y) z, floordiv (z * x + y) z] (x + floordiv y z) [nonneg z],
    tryRewriteIf [floordiv (y + x * z) z, floordiv (y + z * x) z] (floordiv y z + x) [nonneg z],
    tryRewriteIf [floordiv (x - floormod x c1) c1] (floordiv x c1) nonzero]

-- The analysis that follows is `floorModAnalysis`.
def floorModRules : List Rule :=
  [tryRewriteIf [floormod (x * c1) c2] (floormod (x * floormod c1 c2) c2)
      [.cond fun c => c .c2 ≠ 0],
    tryRewriteIf [floormod (x * c1 + y) c2] (floormod x (floordiv c2 c1) * c1 + y)
      (divides ++ [.equalZero (floordiv y c1)]),
    tryRewriteIf [floormod (x * c1 + y) c2] (floormod (x * floormod c1 c2 + y) c2)
      [.cond fun c => 0 < c .c2],
    tryRewriteIf [floormod (x + c1) c2] (floormod (x + floormod c1 c2) c2)
      [.cond fun c => 0 < c .c2 ∧ (c .c2 ≤ c .c1 ∨ c .c1 < 0)],
    tryRewriteIf [floormod (x + y * c1) c2] (floormod (x + y * floormod c1 c2) c2)
      [.cond fun c => 0 < c .c2],
    tryRewriteIf [floormod (x * c1) (x * c2)] (x * floormod c1 c2) [.cond fun c => c .c2 ≠ 0],
    tryRewrite [floormod (x * y) y, floormod (y * x) y] 0]

-- `minBounds` is tried after this rule and before the rest.
def minSame : List Rule :=
  [tryRewrite [min x x] x]

def minConstant : List Rule :=
  [tryRewriteIf [min (x + c1) (x + c2)] (x + c1) [.cond fun c => c .c1 < c .c2],
    tryRewriteIf [min (x + c1) (x + c2)] (x + c2) [.cond fun c => ¬c .c1 < c .c2],
    tryRewriteIf [min (x + c1) x, min x (x + c1)] (x + c1) [.cond fun c => c .c1 < 0],
    tryRewriteIf [min (x + c1) x, min x (x + c1)] x [.cond fun c => ¬c .c1 < 0],
    tryRewriteIf [min (c1 - x) (c2 - x)] (c1 - x) [.cond fun c => c .c1 < c .c2],
    tryRewriteIf [min (c1 - x) (c2 - x)] (c2 - x) [.cond fun c => ¬c .c1 < c .c2]]

def minDivMod : List Rule :=
  [tryRewriteIf [min (truncdiv (x + c1) c2 * c2) x, min x (truncdiv (x + c1) c2 * c2),
      min (floordiv (x + c1) c2 * c2) x, min x (floordiv (x + c1) c2 * c2)] x roundsUp,
    tryRewriteIf [min (truncdiv (x + c1) c2 * c2) (max x c2),
      min (max x c2) (truncdiv (x + c1) c2 * c2), min (floordiv (x + c1) c2 * c2) (max x c2),
      min (max x c2) (floordiv (x + c1) c2 * c2)] (max x c2)
      (roundsUp ++ [.greaterEqual x fun _ => 1]),
    tryRewriteIf [min x (floordiv x c2 * c2), min (floordiv x c2 * c2) x] (floordiv x c2 * c2)
      [.cond fun c => 0 < c .c2]]

def minLattice : List Rule :=
  [tryRewrite [min (max x y) (min x y), min (max x y) (min y x), min (min x y) (max x y),
      min (min x y) (max y x), min (min x y) x, min (min x y) y, min x (min x y),
      min y (min x y)] (min x y),
    tryRewrite [min (max x y) x, min (max y x) x, min x (max x y), min x (max y x)] x,
    tryRewrite [min (min (min x y) z) y] (min (min x y) z),
    tryRewrite [min (min (min (min x y) z) s1) y] (min (min (min x y) z) s1),
    tryRewrite [min (min (min (min (min x y) z) s1) s2) y] (min (min (min (min x y) z) s1) s2),
    tryRewrite [min (max x y) (max x z), min (max x y) (max z x), min (max y x) (max x z),
      min (max y x) (max z x)] (max (min y z) x),
    tryRewrite [min (min x y) (min x z), min (min x y) (min z x), min (min y x) (min x z),
      min (min y x) (min z x)] (min (min y z) x),
    tryRewrite [min (y + x) (z + x), min (y + x) (x + z), min (x + y) (x + z),
      min (x + y) (z + x)] (min y z + x),
    tryRewrite [min (y - x) (z - x)] (min y z - x),
    tryRewrite [min (x - y) (x - z)] (x - max y z),
    tryRewrite [min (min x c1) c2] (min x (min c1 c2))]

def minScaling : List Rule :=
  [tryRewriteIf [min (truncdiv x c1) (truncdiv y c1)] (truncdiv (min x y) c1)
      [.cond fun c => 0 < c .c1],
    tryRewriteIf [min (truncdiv x c1) (truncdiv y c1)] (truncdiv (max x y) c1)
      [.cond fun c => ¬0 < c .c1],
    tryRewriteIf [min (floordiv x c1) (floordiv y c1)] (floordiv (min x y) c1)
      [.cond fun c => 0 < c .c1],
    tryRewriteIf [min (floordiv x c1) (floordiv y c1)] (floordiv (max x y) c1)
      [.cond fun c => ¬0 < c .c1],
    tryRewriteIf [min (x * c1) (y * c1)] (min x y * c1) [.cond fun c => 0 < c .c1],
    tryRewriteIf [min (x * c1) (y * c1)] (max x y * c1) [.cond fun c => ¬0 < c .c1],
    tryRewriteIf [min (x * c1) c2] c2 [.cond fun c => c .c1 = 0 ∧ c .c2 < 0],
    tryRewriteIf [min (x * c1) c2] c1 [.cond fun c => c .c1 = 0 ∧ ¬c .c2 < 0],
    tryRewriteIf [min (x * c1) c2]
      (min x (.num fun c => (c .c2).tdiv (c .c1)) * .num fun c => c .c1)
      [.cond fun c => c .c1 ≠ 0, .computes fun c => (c .c2).tdiv (c .c1),
        .cond fun c => (c .c2).tmod (c .c1) = 0 ∧ 0 < c .c1],
    tryRewriteIf [min (x * c1) c2]
      (max x (.num fun c => (c .c2).tdiv (c .c1)) * .num fun c => c .c1)
      [.cond fun c => c .c1 ≠ 0, .computes fun c => (c .c2).tdiv (c .c1),
        .cond fun c => (c .c2).tmod (c .c1) = 0 ∧ ¬0 < c .c1]]

def minCanonical : List Rule :=
  [tryRecursiveRewrite [min (min x c1) y] (min (min x y) c1),
    tryRecursiveRewriteIf [min (c1 - x) c2] (c1 - max x (c1 - c2)) [.cond fun c => c .c2 ≠ 0]]

def minRules : List Rule :=
  minConstant ++ minDivMod ++ minLattice ++ minScaling ++ minCanonical

-- `maxBounds` is tried after this rule and before the rest.
def maxSame : List Rule :=
  [tryRewrite [max x x] x]

def maxConstant : List Rule :=
  [tryRewriteIf [max (x + c1) (x + c2)] (x + c1) [.cond fun c => c .c2 < c .c1],
    tryRewriteIf [max (x + c1) (x + c2)] (x + c2) [.cond fun c => ¬c .c2 < c .c1],
    tryRewriteIf [max (x + c1) x, max x (x + c1)] (x + c1) [.cond fun c => 0 < c .c1],
    tryRewriteIf [max (x + c1) x, max x (x + c1)] x [.cond fun c => ¬0 < c .c1],
    tryRewriteIf [max (c1 - x) (c2 - x)] (c1 - x) [.cond fun c => c .c2 < c .c1],
    tryRewriteIf [max (c1 - x) (c2 - x)] (c2 - x) [.cond fun c => ¬c .c2 < c .c1]]

def maxDivMod : List Rule :=
  [tryRewriteIf [max (truncdiv (x + c1) c2 * c2) x, max x (truncdiv (x + c1) c2 * c2)]
      (truncdiv (x + c1) c2 * c2) roundsUp,
    tryRewriteIf [max (floordiv (x + c1) c2 * c2) x, max x (floordiv (x + c1) c2 * c2)]
      (floordiv (x + c1) c2 * c2) roundsUp,
    tryRewriteIf [max (floordiv x c2 * c2) x, max x (floordiv x c2 * c2)] x
      [.cond fun c => 0 < c .c2]]

def maxLattice : List Rule :=
  [tryRewrite [max (min x y) x, max (min y x) x, max x (min x y), max x (min y x)] x,
    tryRewrite [max (min x y) (max x y), max (min x y) (max y x), max (max x y) (min x y),
      max (max x y) (min y x), max (max x y) x, max (max x y) y, max x (max x y),
      max y (max x y)] (max x y),
    tryRewrite [max (max (max x y) z) y] (max (max x y) z),
    tryRewrite [max (max (max (max x y) z) s1) y] (max (max (max x y) z) s1),
    tryRewrite [max (max (max (max (max x y) z) s1) s2) y] (max (max (max (max x y) z) s1) s2),
    tryRewrite [max (max x y) (max x z), max (max x y) (max z x), max (max y x) (max x z),
      max (max y x) (max z x)] (max (max y z) x),
    tryRewrite [max (min x y) (min x z), max (min x y) (min z x), max (min y x) (min x z),
      max (min y x) (min z x)] (min (max y z) x),
    tryRewrite [max (y + x) (z + x), max (y + x) (x + z), max (x + y) (x + z),
      max (x + y) (z + x)] (max y z + x),
    tryRewrite [max (y - x) (z - x)] (max y z - x),
    tryRewrite [max (x - y) (x - z)] (x - min y z),
    tryRewrite [max (max x c1) c2] (max x (max c1 c2))]

def maxScaling : List Rule :=
  [tryRewriteIf [max (truncdiv x c1) (truncdiv y c1)] (truncdiv (max x y) c1)
      [.cond fun c => 0 < c .c1],
    tryRewriteIf [max (truncdiv x c1) (truncdiv y c1)] (truncdiv (min x y) c1)
      [.cond fun c => ¬0 < c .c1],
    tryRewriteIf [max (floordiv x c1) (floordiv y c1)] (floordiv (max x y) c1)
      [.cond fun c => 0 < c .c1],
    tryRewriteIf [max (floordiv x c1) (floordiv y c1)] (floordiv (min x y) c1)
      [.cond fun c => ¬0 < c .c1],
    tryRewriteIf [max (x * c1) (y * c1)] (max x y * c1) [.cond fun c => 0 < c .c1],
    tryRewriteIf [max (x * c1) (y * c1)] (min x y * c1) [.cond fun c => ¬0 < c .c1],
    tryRewriteIf [max (x * c1) c2] c2 [.cond fun c => c .c1 = 0 ∧ 0 < c .c2],
    tryRewriteIf [max (x * c1) c2] c1 [.cond fun c => c .c1 = 0 ∧ ¬0 < c .c2],
    tryRewriteIf [max (x * c1) c2]
      (max x (.num fun c => (c .c2).tdiv (c .c1)) * .num fun c => c .c1)
      [.cond fun c => c .c1 ≠ 0, .computes fun c => (c .c2).tdiv (c .c1),
        .cond fun c => (c .c2).tmod (c .c1) = 0 ∧ 0 < c .c1],
    tryRewriteIf [max (x * c1) c2]
      (min x (.num fun c => (c .c2).tdiv (c .c1)) * .num fun c => c .c1)
      [.cond fun c => c .c1 ≠ 0, .computes fun c => (c .c2).tdiv (c .c1),
        .cond fun c => (c .c2).tmod (c .c1) = 0 ∧ ¬0 < c .c1]]

def maxCanonical : List Rule :=
  [tryRecursiveRewrite [max (max x c1) y] (max (max x y) c1),
    tryRecursiveRewriteIf [max (c1 - x) c2] (c1 - min x (c1 - c2)) [.cond fun c => c .c2 ≠ 0]]

def maxRules : List Rule :=
  maxConstant ++ maxDivMod ++ maxLattice ++ maxScaling ++ maxCanonical

end Tlm.Arith.RewriteSimplifier
