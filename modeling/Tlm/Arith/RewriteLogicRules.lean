import Tlm.Arith.RewriteRules

set_option autoImplicit false

namespace Tlm.Arith

namespace Pattern

def eq : Pattern → Pattern → Pattern := .binary .eq
def ne : Pattern → Pattern → Pattern := .binary .ne
def lt : Pattern → Pattern → Pattern := .binary .lt
def le : Pattern → Pattern → Pattern := .binary .le
def gt : Pattern → Pattern → Pattern := .binary .gt
def ge : Pattern → Pattern → Pattern := .binary .ge
def and : Pattern → Pattern → Pattern := .binary .and
def or : Pattern → Pattern → Pattern := .binary .or

end Pattern

namespace RewriteSimplifier

abbrev ctrue : Pattern := .truth true
abbrev cfalse : Pattern := .truth false

def tryRecursiveRewriteNeeding (sources : List Pattern) (result : Pattern) (checks : List Check)
    (needs : Consts → Bool) (admitted : Admitted sources result checks (some needs) none := by decide) :
    Rule :=
  ⟨sources, result, checks, true, some needs, none, admitted⟩

def eqRules : List Rule :=
  [tryRewrite [c1.eq x] (x.eq c1),
    tryRewrite [(x - c1).eq c2] (x.eq (c2 + c1)),
    tryRewrite [(c1 - x).eq c2] (x.eq (c1 - c2)),
    tryRewrite [(x + c1).eq c2] (x.eq (c2 - c1)),
    tryRecursiveRewrite [(x * y).eq 0] ((x.eq 0).or (y.eq 0))]

def ltCancellation : List Rule :=
  [tryRewrite [(x + y).lt (x + z), (x + y).lt (z + x), (y + x).lt (x + z), (y + x).lt (z + x)]
      (y.lt z),
    tryRewrite [(y - x).lt (z - x)] (y.lt z),
    tryRewrite [(x - y).lt (x - z)] (z.lt y),
    tryRewrite [x.lt (x + z), x.lt (z + x)] ((0 : Pattern).lt z),
    tryRewrite [x.lt (x - z)] (z.lt 0),
    tryRewriteIf [(x * c1).lt (y * c1)] (x.lt y) [.cond fun c => 0 < c .c1],
    tryRewriteIf [(x * c1).lt (y * c1)] (y.lt x) [.cond fun c => c .c1 < 0]]

def ltScaling : List Rule :=
  [tryRewriteIf [(x * c2).lt c1] (x.lt (truncdiv (c1 - 1) c2 + 1))
      [.cond fun c => 0 < c .c1 ∧ 0 < c .c2],
    tryRewriteIf [(x * c2).lt c1] (x.lt (truncdiv c1 c2)) [.cond fun c => c .c1 ≤ 0 ∧ 0 < c .c2],
    tryRewriteIf [(x * c2).lt c1] ((truncdiv (c1 - 1) c2 - 1).lt x)
      [.cond fun c => 0 < c .c1 ∧ c .c2 < 0],
    tryRewriteIf [(x * c2).lt c1] ((truncdiv c1 c2).lt x) [.cond fun c => c .c1 ≤ 0 ∧ c .c2 < 0],
    tryRewriteIf [c1.lt (x * c2)] ((truncdiv (c1 + 1) c2 - 1).lt x)
      [.cond fun c => c .c1 < 0 ∧ 0 < c .c2],
    tryRewriteIf [c1.lt (x * c2)] ((truncdiv c1 c2).lt x) [.cond fun c => 0 ≤ c .c1 ∧ 0 < c .c2],
    tryRewriteIf [c1.lt (x * c2)] (x.lt (truncdiv (c1 + 1) c2 + 1))
      [.cond fun c => c .c1 < 0 ∧ c .c2 < 0],
    tryRewriteIf [c1.lt (x * c2)] (x.lt (truncdiv c1 c2)) [.cond fun c => 0 ≤ c .c1 ∧ c .c2 < 0]]

def ltQuotient : List Rule :=
  [tryRewriteIf [(truncdiv x c1).lt c2] (x.lt (c1 * c2)) [.cond fun c => 0 < c .c1 ∧ 0 < c .c2],
    tryRewriteIf [(truncdiv x c1).lt c2] (x.lt (c1 * (c2 - 1) + 1))
      [.cond fun c => 0 < c .c1 ∧ c .c2 ≤ 0],
    tryRewriteIf [c1.lt (truncdiv x c2)] (((c1 + 1) * c2 - 1).lt x)
      [.cond fun c => 0 ≤ c .c1 ∧ 0 < c .c2],
    tryRewriteIf [c1.lt (truncdiv x c2)] ((c1 * c2).lt x) [.cond fun c => c .c1 < 0 ∧ 0 < c .c2]]

def ltTruncRemainder : List Rule :=
  [tryRewriteIf [(truncdiv x c1 * c1).lt x] ((0 : Pattern).lt (truncmod x c1))
      [.cond fun c => 0 < c .c1],
    tryRewriteIf [(truncdiv x c1 * c1).lt (x + y)] ((0 : Pattern).lt (truncmod x c1 + y))
      [.cond fun c => 0 < c .c1],
    tryRewriteIf [(truncdiv x c1 * c1).lt (x - y)] (y.lt (truncmod x c1))
      [.cond fun c => 0 < c .c1],
    tryRewriteIf [(truncdiv (x + c2) c1 * c1).lt x] (c2.lt (truncmod (x + c2) c1))
      [.cond fun c => 0 < c .c1],
    tryRewriteIf [(truncdiv (x + c2) c1 * c1).lt (x + y)] (c2.lt (truncmod (x + c2) c1 + y))
      [.cond fun c => 0 < c .c1],
    tryRewriteIf [(truncdiv (x + c2) c1 * c1).lt (x - y)]
      (y.lt (truncmod (x + c2) c1 + (0 - c2))) [.cond fun c => 0 < c .c1]]

def ltFloor : List Rule :=
  [tryRewriteIf [(floordiv x c1).lt c2] (x.lt (c1 * c2)) [.cond fun c => 0 < c .c1],
    tryRewriteIf [c1.lt (floordiv x c2)] (((c1 + 1) * c2 - 1).lt x) [.cond fun c => 0 < c .c2],
    tryRewriteIf [(floordiv x c1 * c1).lt x] ((0 : Pattern).lt (floormod x c1))
      [.cond fun c => 0 < c .c1],
    tryRewriteIf [(floordiv x c1 * c1).lt (x + y)] ((0 : Pattern).lt (floormod x c1 + y))
      [.cond fun c => 0 < c .c1],
    tryRewriteIf [(floordiv x c1 * c1).lt (x - y)] (y.lt (floormod x c1))
      [.cond fun c => 0 < c .c1],
    tryRewriteIf [(floordiv (x + c2) c1 * c1).lt x] (c2.lt (floormod (x + c2) c1))
      [.cond fun c => 0 < c .c1],
    tryRewriteIf [(floordiv (x + c2) c1 * c1).lt (x + y)] (c2.lt (floormod (x + c2) c1 + y))
      [.cond fun c => 0 < c .c1],
    tryRewriteIf [(floordiv (x + c2) c1 * c1).lt (x - y)]
      (y.lt (floormod (x + c2) c1 + (0 - c2))) [.cond fun c => 0 < c .c1]]

-- `mergeConstants` follows.
def ltCanonical : List Rule :=
  [tryRecursiveRewrite [(min x y).lt z] ((x.lt z).or (y.lt z)),
    tryRecursiveRewrite [(max x y).lt z] ((x.lt z).and (y.lt z)),
    tryRecursiveRewrite [z.lt (min x y)] ((z.lt x).and (z.lt y)),
    tryRecursiveRewrite [z.lt (max x y)] ((z.lt x).or (z.lt y)),
    tryRecursiveRewrite [c1.lt (x + c2), (c1 - x).lt c2] ((c1 - c2).lt x),
    tryRecursiveRewrite [c1.lt (c2 - x), (x + c1).lt c2] (x.lt (c2 - c1)),
    tryRecursiveRewrite [c1.lt (x - c2)] ((c1 + c2).lt x),
    tryRecursiveRewrite [(x - c2).lt c1] (x.lt (c1 + c2)),
    tryRecursiveRewrite [x.lt (c1 - y)] ((x + y).lt c1),
    tryRecursiveRewrite [(c1 - y).lt x] (c1.lt (x + y)),
    tryRecursiveRewrite [x.lt (c1 + y)] ((x - y).lt c1),
    tryRecursiveRewrite [(c1 + y).lt x] (c1.lt (x - y))]

def ltRules : List Rule :=
  ltCancellation ++ ltScaling ++ ltQuotient ++ ltTruncRemainder ++ ltFloor ++ ltCanonical

def notRules : List Rule :=
  [tryRewrite [.not (x.le y)] (y.lt x),
    tryRewrite [.not (x.ge y)] (x.lt y),
    tryRewrite [.not (x.lt y)] (y.le x),
    tryRewrite [.not (x.gt y)] (x.le y),
    tryRewrite [.not (x.eq y)] (x.ne y),
    tryRewrite [.not (x.ne y)] (x.eq y),
    tryRecursiveRewrite [.not (x.or y)] (x.not.and y.not),
    tryRecursiveRewrite [.not (x.and y)] (x.not.or y.not)]

def andContradiction : List Rule :=
  [tryRewrite [(x.eq y).and (x.ne y), (x.ne y).and (x.eq y)] cfalse,
    tryRewrite [x.and x.not] cfalse,
    tryRewrite [(x.le y).and (y.lt x), (y.lt x).and (x.le y)] cfalse,
    tryRewriteIf [(x.lt c1).and (c2.lt x), (c2.lt x).and (x.lt c1)] cfalse
      [.computes fun c => c .c2 + 1, .cond fun c => c .c1 ≤ c .c2 + 1],
    tryRewriteIf [(x.lt c1).and (c2.le x), (c2.le x).and (x.lt c1), (x.le c1).and (c2.lt x),
      (c2.lt x).and (x.le c1)] cfalse [.cond fun c => c .c1 ≤ c .c2],
    tryRewriteIf [(x.le c1).and (c2.le x), (c2.le x).and (x.le c1)] cfalse
      [.cond fun c => c .c1 < c .c2],
    tryRewrite [(x.eq c1).and (x.ne c2), (x.ne c2).and (x.eq c1)] ((x.eq c1).and (c1.ne c2))]

def andQuotient : List Rule :=
  [tryRecursiveRewriteNeeding [((floordiv x c2).eq c1).and ((floormod x c2).eq c3),
      ((floormod x c2).eq c3).and ((floordiv x c2).eq c1)] (x.eq (c1 * c2 + c3)) []
      fun c => 0 ≤ c .c3 ∧ c .c3 < c .c2 ∨ c .c2 < c .c3 ∧ c .c3 ≤ 0,
    tryRecursiveRewriteIf [((0 : Pattern).le (x - y * c1)).and ((x - y * c1).lt c1),
      ((x - y * c1).lt c1).and ((0 : Pattern).le (x - y * c1))] (y.eq (floordiv x c1))
      [.cond fun c => 0 < c .c1],
    tryRecursiveRewriteNeeding [(c1.lt (x - y * c1)).and ((x - y * c1).le 0)]
      (y.eq (floordiv x c1)) [] fun c => c .c1 < 0,
    tryRecursiveRewriteNeeding [((x - y * c1).lt c1).and ((0 : Pattern).le (x - y * c1))]
      (y.eq (floordiv x c1)) [] fun c => 0 < c .c1,
    tryRecursiveRewriteNeeding [((0 : Pattern).le (x + y * c2)).and ((x + y * c2).lt c1),
      ((x + y * c2).lt c1).and ((0 : Pattern).le (x + y * c2))] (y.eq (floordiv x c1))
      [.computes fun c => -c .c1, .cond fun c => c .c2 = -c .c1] fun c => 0 < c .c1]

-- `(a % b + b) % b`, as the conditions have it.
def wrapped (a b : Int) : Int :=
  (a.tmod b + b).tmod b

def andRemainder : List Rule :=
  [tryRecursiveRewriteNeeding [(x.lt c1).and ((floormod x c2).lt c3)]
      ((x.lt (c1 - c2 + c3)).and ((floormod x c2).lt c3))
      [.computes fun c => (c .c1).tdiv (c .c2), .cond fun c => (c .c1).tmod (c .c2) = 0]
      fun c => 0 < c .c2 ∧ c .c3 ≤ c .c2,
    tryRecursiveRewriteIf [(x.lt c1).and ((floormod x c2).lt c3)]
      ((x.lt (c1 - floormod c1 c2 + c3)).and ((floormod x c2).lt c3))
      [.computes fun c => (c .c1).tmod (c .c2) + c .c2,
        .cond fun c => c .c3 < wrapped (c .c1) (c .c2)],
    tryRecursiveRewriteNeeding [(x.le c1).and ((floormod x c2).lt c3)]
      ((x.lt (c1 + 1 - c2 + c3)).and ((floormod x c2).lt c3))
      [.computes fun c => c .c1 + 1, .computes fun c => (c .c1 + 1).tdiv (c .c2),
        .cond fun c => (c .c1 + 1).tmod (c .c2) = 0]
      fun c => 0 < c .c2 ∧ c .c3 ≤ c .c2,
    tryRecursiveRewriteIf [(x.le c1).and ((floormod x c2).lt c3)]
      ((x.lt (c1 + 1 - floormod c1 c2 + c3)).and ((floormod x c2).lt c3))
      [.computes fun c => c .c1 + 1, .computes fun c => (c .c1 + 1).tmod (c .c2) + c .c2,
        .cond fun c => c .c3 < wrapped (c .c1 + 1) (c .c2)]]

def andRange : List Rule :=
  [tryRecursiveRewriteNeeding [((floordiv x c2).eq c1).and ((floormod x c2).lt c3),
      ((floormod x c2).lt c3).and ((floordiv x c2).eq c1)]
      (((c1 * c2).le x).and (x.lt (c1 * c2 + c3))) [] fun c => 0 < c .c2 ∧ c .c3 ≤ c .c2,
    tryRecursiveRewriteNeeding [((floordiv x c2).eq c1).and ((floormod x c2).le c3),
      ((floormod x c2).le c3).and ((floordiv x c2).eq c1)]
      (((c1 * c2).le x).and (x.le (c1 * c2 + c3))) [] fun c => 0 < c .c2 ∧ c .c3 < c .c2,
    tryRecursiveRewriteNeeding [((floordiv x c2).eq c1).and (c3.le (floormod x c2)),
      (c3.le (floormod x c2)).and ((floordiv x c2).eq c1)]
      (((c1 * c2 + c3).le x).and (x.lt ((c1 + 1) * c2))) [] fun c => 0 < c .c2 ∧ 0 ≤ c .c3,
    tryRecursiveRewriteNeeding [((floordiv x c2).eq c1).and (c3.lt (floormod x c2)),
      (c3.lt (floormod x c2)).and ((floordiv x c2).eq c1)]
      (((c1 * c2 + c3).lt x).and (x.lt ((c1 + 1) * c2))) [] fun c => 0 < c .c2 ∧ -1 ≤ c .c3,
    tryRecursiveRewrite [x.and (y.and z)] ((x.and y).and z)]

def andRules : List Rule :=
  andContradiction ++ andQuotient ++ andRemainder ++ andRange

def orRules : List Rule :=
  [tryRewrite [(x.eq y).or (x.ne y), (x.ne y).or (x.eq y)] ctrue,
    tryRewrite [x.or x.not] ctrue,
    tryRewrite [(x.le y).or (y.lt x), (y.lt x).or (x.le y)] ctrue,
    tryRewrite [(x.lt y).or (y.lt x)] (x.ne y),
    tryRewriteIf [(x.lt c1).or (c2.lt x), (c2.lt x).or (x.lt c1)] ctrue
      [.cond fun c => c .c2 < c .c1],
    tryRewriteIf [(x.le c1).or (c2.lt x), (c2.lt x).or (x.le c1), (x.lt c1).or (c2.le x),
      (c2.le x).or (x.lt c1)] ctrue [.cond fun c => c .c2 ≤ c .c1],
    tryRewriteIf [(x.le c1).or (c2.le x), (c2.le x).or (x.le c1)] ctrue
      [.computes fun c => c .c1 + 1, .cond fun c => c .c2 ≤ c .c1 + 1],
    tryRewrite [(x.ne c1).or (x.eq c2), (x.eq c2).or (x.ne c1)] ((x.ne c1).or (c1.eq c2)),
    tryRecursiveRewrite [(x.lt y).or (x.eq y), (x.lt y).or (y.eq x), (x.eq y).or (x.lt y),
      (y.eq x).or (x.lt y)] (x.le y),
    tryRecursiveRewrite [x.or (y.or z)] ((x.or y).or z)]

end RewriteSimplifier

end Tlm.Arith
