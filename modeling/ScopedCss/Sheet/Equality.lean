/-
Equality of sheets is decidable, and two sheets are alike if they are equal apart from locations.
-/
import ScopedCss.Sheet.Basic

namespace ScopedCss

mutual

def Content.decEq : (a b : Content) → Decidable (a = b)
  | .rule s d n l, .rule s' d' n' l' =>
    if hs : s = s' then
      if hd : d = d' then
        if hl : l = l' then
          match Sheet.decEq n n' with
          | isTrue hn => isTrue (by rw [hs, hd, hn, hl])
          | isFalse hn => isFalse (by intro h; injection h; contradiction)
        else isFalse (by intro h; injection h; contradiction)
      else isFalse (by intro h; injection h; contradiction)
    else isFalse (by intro h; injection h; contradiction)
  | .atRule a b, .atRule a' b' =>
    if ha : a = a' then
      match Sheet.decEq b b' with
      | isTrue hb => isTrue (by rw [ha, hb])
      | isFalse hb => isFalse (by intro h; injection h; contradiction)
    else isFalse (by intro h; injection h; contradiction)
  | .rule .., .atRule .. => isFalse (by intro h; injection h)
  | .atRule .., .rule .. => isFalse (by intro h; injection h)

def Sheet.decEq : (a b : Sheet) → Decidable (a = b)
  | [], [] => isTrue rfl
  | [], _ :: _ => isFalse (by intro h; injection h)
  | _ :: _, [] => isFalse (by intro h; injection h)
  | c :: cs, d :: ds =>
    match Content.decEq c d, Sheet.decEq cs ds with
    | isTrue hc, isTrue hs => isTrue (by rw [hc, hs])
    | isFalse hc, _ => isFalse (by intro h; injection h; contradiction)
    | _, isFalse hs => isFalse (by intro h; injection h; contradiction)

end

instance : DecidableEq Content := Content.decEq

/-- Whether two sheets are equal apart from locations. -/
def Sheet.alike (a b : Sheet) : Bool := a.unplaced = b.unplaced

end ScopedCss
