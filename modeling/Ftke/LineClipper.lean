import Mathlib.Algebra.Order.Field.Rat
import Mathlib.Data.Fin.VecNotation
import Mathlib.Order.Interval.Set.Basic
import Mathlib.Tactic.Linarith
import Mathlib.Tactic.NormNum
import Mathlib.Tactic.Ring

/-!
# Ftke.LineClipper

Line clipping of the OpenGL ES renderer (`ContextLines.cpp`, `LineClipper.inc`), with
coordinates in ℚ and exact interpolation.

A new end point is made in a temporary, but without its eye coordinates and its front colour,
which stay what an earlier line left there; and of the two bounds of an axis only one is
clipped at.  Lines are right where no end is cut, and of those that are drawn no others
(`renderLine_correct`).
-/

namespace Ftke.LineClipper

/-- `Vec4D`: x, y, z, w. -/
abbrev Vec4D := Fin 4 → ℚ

/-- `FractionalColor`: r, g, b, a. -/
abbrev FractionalColor := Fin 4 → ℚ

/-- `RasterPos`, the window coordinates apart. -/
structure RasterPos where
  eyeCoords : Vec4D
  clipCoords : Vec4D
  color : FractionalColor
  frontColor : FractionalColor
  textureCoords : Fin 2 → Fin 2 → ℚ
  fogDensity : ℚ

/-- The product of vectors. -/
def dot (u v : Vec4D) : ℚ := u 0 * v 0 + u 1 * v 1 + u 2 * v 2 + u 3 * v 3

/-- `Interpolate` of numbers. -/
def interpolate (x0 x1 num denom : ℚ) : ℚ := x1 + (x0 - x1) * num / denom

/-- `Interpolate` of vertices; the rest of `result` stays. -/
def RasterPos.interpolate (result dst src : RasterPos) (num denom : ℚ) : RasterPos :=
  { result with
    clipCoords := fun i => LineClipper.interpolate (dst.clipCoords i) (src.clipCoords i) num denom
    color := fun i => LineClipper.interpolate (dst.color i) (src.color i) num denom
    textureCoords := fun unit i =>
      LineClipper.interpolate (dst.textureCoords unit i) (src.textureCoords unit i) num denom
    fogDensity := LineClipper.interpolate dst.fogDensity src.fogDensity num denom }

/-! ## Passes -/

/-- The ends of the line, and the temporaries that are left. -/
structure Line where
  pFrom : RasterPos
  pTo : RasterPos
  tempVertices : ℕ → RasterPos

namespace Line

def clipFrom (l : Line) (num denom : ℚ) : Line :=
  ⟨(l.tempVertices 0).interpolate l.pFrom l.pTo num denom, l.pTo, fun k => l.tempVertices (k + 1)⟩

def clipTo (l : Line) (num denom : ℚ) : Line :=
  ⟨l.pFrom, (l.tempVertices 0).interpolate l.pTo l.pFrom num denom, fun k => l.tempVertices (k + 1)⟩

/-- `ClipUser`. -/
def clipUser (plane : Vec4D) (l : Line) : Option Line :=
  let f := dot l.pFrom.eyeCoords plane
  let t := dot l.pTo.eyeCoords plane
  if f < 0 then
    if t < 0 then none else some (l.clipFrom t (t - f))
  else if t < 0 then some (l.clipTo f (f - t))
  else some l

/-- `ClipX`, `ClipY` and `ClipZ`. -/
def clipAxis (i : Fin 4) (l : Line) : Option Line :=
  let f := l.pFrom.clipCoords i
  let fw := l.pFrom.clipCoords 3
  let t := l.pTo.clipCoords i
  let tw := l.pTo.clipCoords 3
  if f < -fw then
    if t < -tw then none else some (l.clipFrom (-tw - t) ((-tw - t) - (-fw - f)))
  else if f > fw then
    if t > tw then none else some (l.clipFrom (tw - t) ((tw - t) - (fw - f)))
  else if t < -tw then some (l.clipTo (-fw - f) ((-fw - f) - (-tw - t)))
  else if t > tw then some (l.clipTo (fw - f) ((fw - f) - (tw - t)))
  else some l

end Line

/-- A pass of the clipper. -/
inductive Pass
  | user (plane : Vec4D)
  | axis (i : Fin 4)

def Pass.clip : Pass → Line → Option Line
  | user plane => Line.clipUser plane
  | axis i => Line.clipAxis i

/-- What a line is clipped with. -/
structure Context where
  clipPlanes : Fin 6 → Vec4D
  clipPlaneEnabled : Fin 6 → Bool
  shadeModelSmooth : Bool
  temporary : ℕ → RasterPos

namespace Context

/-- The passes of `RenderLine`, in their order. -/
def passes (c : Context) : List Pass :=
  ((List.finRange 6).filter c.clipPlaneEnabled).map (fun index => .user (c.clipPlanes index)) ++
    [.axis 0, .axis 1, .axis 2]

def clip (passes : List Pass) (l : Line) : Option Line := passes.foldlM (fun l pass => pass.clip l) l

/-- `RenderLine`: what is passed to `RasterLine`. -/
def renderLine (c : Context) (source target : RasterPos) : Option (RasterPos × RasterPos) :=
  (clip c.passes ⟨source, target, c.temporary⟩).map fun l =>
    ({ l.pFrom with color := if c.shadeModelSmooth then l.pFrom.frontColor else l.pTo.frontColor },
      { l.pTo with color := l.pTo.frontColor })

end Context

/-! ## What is to be drawn -/

/-- The bounds of a pass; a vertex is inside where none is negative. -/
def Pass.bounds : Pass → List (RasterPos → ℚ)
  | user plane => [fun p => dot p.eyeCoords plane]
  | axis i => [fun p => p.clipCoords 3 + p.clipCoords i, fun p => p.clipCoords 3 - p.clipCoords i]

/-- The point of the line at a parameter. -/
def pointAt (source target : RasterPos) (t : ℚ) : RasterPos where
  eyeCoords i := source.eyeCoords i + t * (target.eyeCoords i - source.eyeCoords i)
  clipCoords i := source.clipCoords i + t * (target.clipCoords i - source.clipCoords i)
  color i := source.color i + t * (target.color i - source.color i)
  frontColor i := source.frontColor i + t * (target.frontColor i - source.frontColor i)
  textureCoords unit i :=
    source.textureCoords unit i + t * (target.textureCoords unit i - source.textureCoords unit i)
  fogDensity := source.fogDensity + t * (target.fogDensity - source.fogDensity)

namespace Context

variable (c : Context) (source target : RasterPos)

def bounds : List (RasterPos → ℚ) := c.passes.flatMap Pass.bounds

/-- The parameters of the points within the region. -/
def visible : Set ℚ := {t | (0 ≤ t ∧ t ≤ 1) ∧ ∀ d ∈ c.bounds, 0 ≤ d (pointAt source target t)}

/-- A vertex is that of a point of the line; without smooth shading the line has the colour of its
second end. -/
structure Drawn (t : ℚ) (p : RasterPos) : Prop where
  clipCoords : p.clipCoords = (pointAt source target t).clipCoords
  color : p.color = if c.shadeModelSmooth then (pointAt source target t).frontColor else target.frontColor
  textureCoords : p.textureCoords = (pointAt source target t).textureCoords
  fogDensity : p.fogDensity = (pointAt source target t).fogDensity

/-- Nothing is drawn of a line that does not meet the inside of the region, and of the others the ends
of what is visible. -/
def Correct : Option (RasterPos × RasterPos) → Prop
  | none => ∀ t, 0 ≤ t → t ≤ 1 → ∃ d ∈ c.bounds, d (pointAt source target t) ≤ 0
  | some (p, q) => ∃ a b, a ≤ b ∧ c.visible source target = Set.Icc a b ∧
      c.Drawn source target a p ∧ c.Drawn source target b q

end Context

/-- Of the bounds that an end is outside of, the first one has both ends outside. -/
def NoEndCut (source target : RasterPos) : List (RasterPos → ℚ) → Prop
  | [] => True
  | d :: rest => d source < 0 ∧ d target < 0 ∨ 0 ≤ d source ∧ 0 ≤ d target ∧ NoEndCut source target rest

/-! ## Lines that are not cut -/

variable {source target : RasterPos} {l m : Line} {passes : List Pass}

theorem noEndCut_append {bs rest : List (RasterPos → ℚ)} (h : NoEndCut source target (bs ++ rest)) :
    NoEndCut source target bs ∧ ((∀ d ∈ bs, 0 ≤ d source ∧ 0 ≤ d target) → NoEndCut source target rest) := by
  induction bs with
  | nil => exact ⟨trivial, fun _ => h⟩
  | cons d bs ih =>
    obtain hout | ⟨hs, ht, hrest⟩ := h
    · refine ⟨.inl hout, fun hin => ?_⟩
      have hd := hin d List.mem_cons_self
      linarith
    · obtain ⟨hbs, hall⟩ := ih hrest
      exact ⟨.inr ⟨hs, ht, hbs⟩, fun hin => hall fun d' hd' => hin d' (List.mem_cons_of_mem d hd')⟩

/-- A pass keeps a line within its bounds, and drops one with both ends outside of the first that is
not kept. -/
theorem Pass.clip_of_noEndCut (pass : Pass) (h : NoEndCut l.pFrom l.pTo pass.bounds) :
    pass.clip l = some l ∧ (∀ d ∈ pass.bounds, 0 ≤ d l.pFrom ∧ 0 ≤ d l.pTo) ∨
      pass.clip l = none ∧ ∃ d ∈ pass.bounds, d l.pFrom < 0 ∧ d l.pTo < 0 := by
  cases pass with
  | user plane =>
    simp only [bounds, NoEndCut, and_true] at h
    simp only [clip, Line.clipUser, bounds, List.mem_singleton, forall_eq, exists_eq_left]
    obtain ⟨hf, ht⟩ | ⟨hf, ht⟩ := h
    · simp [hf, ht]
    · simp [hf.not_gt, ht.not_gt, hf, ht]
  | axis i =>
    simp only [bounds, NoEndCut, and_true] at h
    simp only [clip, Line.clipAxis, bounds, List.mem_cons, List.not_mem_nil, or_false, forall_eq_or_imp, forall_eq,
      exists_eq_or_imp, exists_eq_left]
    obtain ⟨hf, ht⟩ | ⟨hf, ht, ⟨hf', ht'⟩ | ⟨hf', ht'⟩⟩ := h
    · right
      rw [if_pos (by linarith), if_pos (by linarith)]
      exact ⟨rfl, .inl ⟨hf, ht⟩⟩
    · right
      rw [if_neg (by linarith), if_pos (by linarith), if_pos (by linarith)]
      exact ⟨rfl, .inr ⟨hf', ht'⟩⟩
    · left
      rw [if_neg (by linarith), if_neg (by linarith), if_neg (by linarith), if_neg (by linarith)]
      exact ⟨rfl, ⟨hf, ht⟩, hf', ht'⟩

theorem clip_of_noEndCut (h : NoEndCut l.pFrom l.pTo (passes.flatMap Pass.bounds)) :
    Context.clip passes l = some l ∧ (∀ d ∈ passes.flatMap Pass.bounds, 0 ≤ d l.pFrom ∧ 0 ≤ d l.pTo) ∨
      Context.clip passes l = none ∧ ∃ d ∈ passes.flatMap Pass.bounds, d l.pFrom < 0 ∧ d l.pTo < 0 := by
  induction passes with
  | nil => exact .inl ⟨rfl, by simp⟩
  | cons pass passes ih =>
    rw [List.flatMap_cons] at h ⊢
    obtain ⟨hpass, hrest⟩ := noEndCut_append h
    simp only [Context.clip, List.foldlM_cons, List.mem_append] at ih ⊢
    obtain ⟨hclip, hin⟩ | ⟨hclip, d, hd, hout⟩ := pass.clip_of_noEndCut hpass
    · rw [hclip, Option.bind_eq_bind, Option.bind_some]
      obtain ⟨hclip, hall⟩ | ⟨hclip, d, hd, hout⟩ := ih (hrest hin)
      · exact .inl ⟨hclip, fun d hd => hd.elim (hin d) (hall d)⟩
      · exact .inr ⟨hclip, d, .inr hd, hout⟩
    · rw [hclip, Option.bind_eq_bind, Option.bind_none]
      exact .inr ⟨rfl, d, .inl hd, hout⟩

/-- The bounds are linear along a line. -/
theorem bound_pointAt {c : Context} {d : RasterPos → ℚ} (hd : d ∈ c.bounds) (t : ℚ) :
    d (pointAt source target t) = (1 - t) * d source + t * d target := by
  obtain ⟨pass, -, hd⟩ := List.mem_flatMap.mp hd
  cases pass with
  | user plane =>
    rw [List.mem_singleton.mp hd]
    simp only [dot, pointAt]
    ring
  | axis i =>
    obtain rfl | hd := List.mem_cons.mp hd
    · simp only [pointAt]
      ring
    · rw [List.mem_singleton.mp hd]
      simp only [pointAt]
      ring

theorem correct_of_noEndCut (c : Context) (h : NoEndCut source target c.bounds) :
    c.Correct source target (c.renderLine source target) := by
  rw [Context.renderLine]
  obtain ⟨hclip, hin⟩ | ⟨hclip, d, hd, hs, ht⟩ := @clip_of_noEndCut ⟨source, target, c.temporary⟩ c.passes h
  · rw [hclip]
    refine ⟨0, 1, zero_le_one, ?_, by constructor <;> simp [pointAt], by constructor <;> simp [pointAt]⟩
    refine Set.ext fun t => ⟨fun ht => ht.1, fun ht => ⟨ht, fun d hd => ?_⟩⟩
    obtain ⟨hs, ht'⟩ := hin d hd
    rw [bound_pointAt hd]
    exact add_nonneg (mul_nonneg (sub_nonneg.mpr ht.2) hs) (mul_nonneg ht.1 ht')
  · rw [hclip]
    intro t h0 h1
    refine ⟨d, hd, ?_⟩
    rw [bound_pointAt hd]
    exact add_nonpos (mul_nonpos_of_nonneg_of_nonpos (sub_nonneg.mpr h1) hs.le)
      (mul_nonpos_of_nonneg_of_nonpos h0 ht.le)

/-! ## Lines that are cut -/

/-- A vertex with another front colour. -/
def RasterPos.recolor (g : FractionalColor) (p : RasterPos) : RasterPos := { p with frontColor := g }

/-- The same line, made with temporaries of front colour `g`: an end is made in one of them or is as it was. -/
structure Recolored (g : FractionalColor) (l m : Line) : Prop where
  pFrom : m.pFrom = l.pFrom ∨ m.pFrom = l.pFrom.recolor g
  pTo : m.pTo = l.pTo ∨ m.pTo = l.pTo.recolor g
  tempVertices : ∀ k, m.tempVertices k = (l.tempVertices k).recolor g

/-- An end has the colour of the temporaries. -/
def Stained (g : FractionalColor) (l : Line) : Prop := l.pFrom.frontColor = g ∨ l.pTo.frontColor = g

variable {g : FractionalColor}

theorem Recolored.coords (h : Recolored g l m) :
    (m.pFrom.clipCoords = l.pFrom.clipCoords ∧ m.pFrom.eyeCoords = l.pFrom.eyeCoords) ∧
      m.pTo.clipCoords = l.pTo.clipCoords ∧ m.pTo.eyeCoords = l.pTo.eyeCoords := by
  obtain hf | hf := h.pFrom <;> obtain ht | ht := h.pTo <;> simp [hf, ht, RasterPos.recolor]

theorem recolored_clipFrom (h : Recolored g l m) (num denom : ℚ) :
    Recolored g (l.clipFrom num denom) (m.clipFrom num denom) ∧ Stained g (m.clipFrom num denom) := by
  have htemp := h.tempVertices 0
  refine ⟨⟨.inr ?_, h.pTo, fun k => h.tempVertices (k + 1)⟩, .inl ?_⟩
  · obtain hf | hf := h.pFrom <;> obtain ht | ht := h.pTo <;>
      simp [Line.clipFrom, RasterPos.interpolate, RasterPos.recolor, hf, ht, htemp]
  · simp [Line.clipFrom, RasterPos.interpolate, RasterPos.recolor, htemp]

theorem recolored_clipTo (h : Recolored g l m) (num denom : ℚ) :
    Recolored g (l.clipTo num denom) (m.clipTo num denom) ∧ Stained g (m.clipTo num denom) := by
  have htemp := h.tempVertices 0
  refine ⟨⟨h.pFrom, .inr ?_, fun k => h.tempVertices (k + 1)⟩, .inr ?_⟩
  · obtain hf | hf := h.pFrom <;> obtain ht | ht := h.pTo <;>
      simp [Line.clipTo, RasterPos.interpolate, RasterPos.recolor, hf, ht, htemp]
  · simp [Line.clipTo, RasterPos.interpolate, RasterPos.recolor, htemp]

/-- A pass does not see the colours, and keeps the line, within its bounds, or makes an end of it. -/
theorem Pass.clip_recolored {l' : Line} (pass : Pass) (h : Recolored g l m) (hclip : pass.clip l = some l') :
    ∃ m', pass.clip m = some m' ∧ Recolored g l' m' ∧
      (l' = l ∧ m' = m ∧ (∀ d ∈ pass.bounds, 0 ≤ d l.pFrom ∧ 0 ≤ d l.pTo) ∨ Stained g m') := by
  obtain ⟨⟨hfc, hfe⟩, htc, hte⟩ := h.coords
  cases pass with
  | user plane =>
    simp only [clip, Line.clipUser, hfe, hte, bounds, List.mem_singleton, forall_eq] at hclip ⊢
    split at hclip
    · next hf =>
      split at hclip
      · contradiction
      · next ht =>
        cases hclip
        obtain ⟨hcut, hstained⟩ := recolored_clipFrom h (dot l.pTo.eyeCoords plane)
          (dot l.pTo.eyeCoords plane - dot l.pFrom.eyeCoords plane)
        exact ⟨_, by rw [if_pos hf, if_neg ht], hcut, .inr hstained⟩
    · next hf =>
      split at hclip
      · next ht =>
        cases hclip
        obtain ⟨hcut, hstained⟩ := recolored_clipTo h (dot l.pFrom.eyeCoords plane)
          (dot l.pFrom.eyeCoords plane - dot l.pTo.eyeCoords plane)
        exact ⟨_, by rw [if_neg hf, if_pos ht], hcut, .inr hstained⟩
      · next ht =>
        cases hclip
        exact ⟨m, by rw [if_neg hf, if_neg ht], h, .inl ⟨rfl, rfl, not_lt.mp hf, not_lt.mp ht⟩⟩
  | axis i =>
    simp only [clip, Line.clipAxis, hfc, htc, bounds, List.mem_cons, List.not_mem_nil, or_false, forall_eq_or_imp,
      forall_eq] at hclip ⊢
    split at hclip
    · next hlow =>
      rw [if_pos hlow]
      split at hclip
      · contradiction
      · next hin =>
        cases hclip
        obtain ⟨hcut, hstained⟩ := recolored_clipFrom h _ _
        exact ⟨_, if_neg hin, hcut, .inr hstained⟩
    · next hlow =>
      rw [if_neg hlow]
      split at hclip
      · next hhigh =>
        rw [if_pos hhigh]
        split at hclip
        · contradiction
        · next hin =>
          cases hclip
          obtain ⟨hcut, hstained⟩ := recolored_clipFrom h _ _
          exact ⟨_, if_neg hin, hcut, .inr hstained⟩
      · next hhigh =>
        rw [if_neg hhigh]
        split at hclip
        · next hlow' =>
          cases hclip
          obtain ⟨hcut, hstained⟩ := recolored_clipTo h _ _
          exact ⟨_, if_pos hlow', hcut, .inr hstained⟩
        · next hlow' =>
          rw [if_neg hlow']
          split at hclip
          · next hhigh' =>
            cases hclip
            obtain ⟨hcut, hstained⟩ := recolored_clipTo h _ _
            exact ⟨_, if_pos hhigh', hcut, .inr hstained⟩
          · next hhigh' =>
            cases hclip
            refine ⟨m, if_neg hhigh', h, .inl ⟨rfl, rfl, ⟨?_, ?_⟩, ?_, ?_⟩⟩ <;> linarith

theorem clip_recolored {l' : Line} (h : Recolored g l m) (hclip : Context.clip passes l = some l') :
    ∃ m', Context.clip passes m = some m' ∧
      (m' = m ∧ (∀ d ∈ passes.flatMap Pass.bounds, 0 ≤ d l.pFrom ∧ 0 ≤ d l.pTo) ∨ Stained g m') := by
  induction passes generalizing l m with
  | nil => exact ⟨m, rfl, .inl ⟨rfl, by simp⟩⟩
  | cons pass passes ih =>
    simp only [Context.clip, List.foldlM_cons, Option.bind_eq_bind, Option.bind_eq_some_iff] at ih hclip ⊢
    obtain ⟨l₁, hpass, hrest⟩ := hclip
    obtain ⟨m₁, hpass', hrecolored, hcase⟩ := pass.clip_recolored h hpass
    obtain ⟨m', hrest', hcase'⟩ := ih hrecolored hrest
    refine ⟨m', ⟨m₁, hpass', hrest'⟩, ?_⟩
    obtain ⟨rfl, hin'⟩ | hstained' := hcase'
    · obtain ⟨rfl, rfl, hin⟩ | hstained := hcase
      · refine .inl ⟨rfl, fun d hd => ?_⟩
        rw [List.flatMap_cons, List.mem_append] at hd
        exact hd.elim (hin d) (hin' d)
      · exact .inr hstained
    · exact .inr hstained'

/-- The context with temporaries of one front colour. -/
def Context.stain (c : Context) (g : FractionalColor) : Context :=
  { c with temporary := fun k => (c.temporary k).recolor g }

/-- A line that is drawn with an end outside has, with other temporaries, an end of any colour. -/
theorem renderLine_stained {c : Context} {drawn : RasterPos × RasterPos} (hsmooth : c.shadeModelSmooth = true)
    (hdrawn : c.renderLine source target = some drawn) (g : FractionalColor) :
    (∀ d ∈ c.bounds, 0 ≤ d source ∧ 0 ≤ d target) ∨
      ∃ p q, (c.stain g).renderLine source target = some (p, q) ∧ (p.color = g ∨ q.color = g) := by
  obtain ⟨l, hclip, -⟩ := Option.map_eq_some_iff.mp hdrawn
  have hstart : Recolored g ⟨source, target, c.temporary⟩ ⟨source, target, (c.stain g).temporary⟩ :=
    ⟨.inl rfl, .inl rfl, fun _ => rfl⟩
  obtain ⟨m, hclip', ⟨-, hin⟩ | hstained⟩ := clip_recolored hstart hclip
  · exact .inl hin
  · refine .inr ⟨_, _, by rw [Context.renderLine, show (c.stain g).passes = c.passes from rfl, hclip']; rfl, ?_⟩
    simp only [Context.stain, hsmooth, if_true]
    exact hstained

theorem noEndCut_of_inside {bs : List (RasterPos → ℚ)} (h : ∀ d ∈ bs, 0 ≤ d source ∧ 0 ≤ d target) :
    NoEndCut source target bs := by
  induction bs with
  | nil => trivial
  | cons d bs ih =>
    obtain ⟨hs, ht⟩ := h d List.mem_cons_self
    exact .inr ⟨hs, ht, ih fun d' hd' => h d' (List.mem_cons_of_mem d hd')⟩

theorem Icc_inj {a b a' b' : ℚ} (h : a ≤ b) (h' : a' ≤ b') (heq : Set.Icc a b = Set.Icc a' b') :
    a = a' ∧ b = b' := by
  have ha := heq ▸ Set.left_mem_Icc.mpr h
  have hb := heq ▸ Set.right_mem_Icc.mpr h
  have ha' := heq.symm ▸ Set.left_mem_Icc.mpr h'
  have hb' := heq.symm ▸ Set.right_mem_Icc.mpr h'
  exact ⟨le_antisymm ha'.1 ha.1, le_antisymm hb.2 hb'.2⟩

/-- A colour that is neither of two. -/
theorem exists_ne_colors (u v : FractionalColor) : ∃ g : FractionalColor, g ≠ u ∧ g ≠ v := by
  refine ⟨fun _ => |u 0| + |v 0| + 1, fun h => ?_, fun h => ?_⟩
  · have h0 := congrFun h 0
    have hu := le_abs_self (u 0)
    have hv := abs_nonneg (v 0)
    linarith
  · have h0 := congrFun h 0
    have hu := abs_nonneg (u 0)
    have hv := le_abs_self (v 0)
    linarith

/-- **Lines of which no end is cut are right**, and with smooth shading no others that are drawn, as the
temporaries have any contents. -/
theorem renderLine_correct (c : Context) (source target : RasterPos) :
    (NoEndCut source target c.bounds → c.Correct source target (c.renderLine source target)) ∧
    (c.shadeModelSmooth = true → c.renderLine source target ≠ none → ¬NoEndCut source target c.bounds →
      ∃ temporary, ¬{ c with temporary }.Correct source target ({ c with temporary }.renderLine source target)) := by
  refine ⟨correct_of_noEndCut c, fun hsmooth hdrawn hcut => ?_⟩
  obtain ⟨drawn, hdrawn⟩ := Option.ne_none_iff_exists'.mp hdrawn
  by_contra hcorrect
  have hcorrect : ∀ temporary, { c with temporary }.Correct source target
      ({ c with temporary }.renderLine source target) := by simpa using hcorrect
  have hfirst := hcorrect c.temporary
  rw [show ({ c with temporary := c.temporary } : Context) = c from rfl, hdrawn] at hfirst
  obtain ⟨a, b, hab, hvisible, -⟩ := hfirst
  obtain ⟨g, hga, hgb⟩ := exists_ne_colors (pointAt source target a).frontColor (pointAt source target b).frontColor
  obtain hin | ⟨p, q, hstained, hcolor⟩ := renderLine_stained hsmooth hdrawn g
  · exact hcut (noEndCut_of_inside hin)
  · have hsecond := hcorrect (c.stain g).temporary
    rw [show ({ c with temporary := (c.stain g).temporary } : Context) = c.stain g from rfl, hstained] at hsecond
    obtain ⟨a', b', hab', hvisible', hp, hq⟩ := hsecond
    obtain ⟨rfl, rfl⟩ := Icc_inj hab hab' (hvisible.symm.trans hvisible')
    have hsmooth : (c.stain g).shadeModelSmooth = true := hsmooth
    obtain hcolor | hcolor := hcolor
    · exact hga (by rw [← hcolor, hp.color, hsmooth, if_pos rfl])
    · exact hgb (by rw [← hcolor, hq.color, hsmooth, if_pos rfl])

/-- A white vertex on the x axis. -/
def vertex (x : ℚ) : RasterPos := ⟨0, ![x, 0, 0, 1], fun _ => 8, fun _ => 8, fun _ _ => 0, 0⟩

/-- No planes; the temporaries are black. -/
def plain : Context := ⟨fun _ _ => 0, fun _ => false, true, fun _ => (vertex 0).recolor fun _ => 0⟩

/-- The end of a white line that is cut is black. -/
theorem cutEnd_black : ¬∀ (c : Context) (source target : RasterPos),
    0 < source.clipCoords 3 → 0 < target.clipCoords 3 →
    c.Correct source target (c.renderLine source target) := by
  intro h
  have hcorrect := h plain (vertex 0) (vertex 2) (by decide) (by decide)
  have hpasses : plain.passes = [.axis 0, .axis 1, .axis 2] := rfl
  have hdrawn : ∃ p q, plain.renderLine (vertex 0) (vertex 2) = some (p, q) ∧ q.color 0 = 0 := by
    have hz : ∀ x : ℚ, ![x, 0, 0, 1] 2 = 0 := fun _ => rfl
    have hw : ∀ x : ℚ, ![x, 0, 0, 1] 3 = 1 := fun _ => rfl
    rw [Context.renderLine, hpasses]
    norm_num [hz, hw, Context.clip, Pass.clip, Line.clipAxis, vertex, plain, Line.clipTo, RasterPos.interpolate,
      interpolate, RasterPos.recolor]
    exact ⟨_, _, ⟨rfl, rfl⟩, rfl⟩
  obtain ⟨p, q, hdrawn, hblack⟩ := hdrawn
  rw [hdrawn] at hcorrect
  obtain ⟨a, b, -, -, -, hq⟩ := hcorrect
  rw [hq.color] at hblack
  simp [plain, pointAt, vertex] at hblack

end Ftke.LineClipper
