import Mathlib.Data.List.Basic
import Mathlib.Data.List.TakeWhile
import Mathlib.Data.Nat.Notation
/-!
# Paths of the command line

`resolve_path` of `kernel/Cli.cpp`. A path is its characters without the
NUL. The lengths are `U32`s in the source, which no string of a 32-bit
address space exceeds.
-/

namespace Uberos

namespace Cli

/-! ## The code -/

/-- The `length` after the loop of the `..` case, which starts from `length`. -/
def parentLength (pathA : List Char) : (length : ℕ) → ℕ
  | 0 => 0
  | length + 1 => if pathA[length]? = some '/' then length + 1 else parentLength pathA length

/-- `resolve_path` -/
def resolvePath (pathA pathB : List Char) : List Char :=
  if pathB = [] then pathA
  else if pathB[0]? = some '/' then resolvePath [] (pathB.drop 1)
  else if pathB[0]? = some '.' ∧ pathB[1]? = some '.' ∧
      (pathB[2]? = some '/' ∨ pathB[2]? = none) then
    -- one is taken off only where the loop stopped at a slash
    let temp := pathA.take (parentLength pathA pathA.length - 1)
    if pathB[2]? = none then temp else resolvePath temp (pathB.drop 3)
  else if pathB[0]? = some '.' ∧ (pathB[1]? = some '/' ∨ pathB[1]? = none) then
    resolvePath pathA (pathB.drop (if pathB[1]? = some '/' then 2 else 1))
  else
    let length := (pathB.takeWhile (· ≠ '/')).length
    let temp := pathA ++ (if pathA = [] then [] else ['/']) ++ pathB.take length
    if pathB[length]? = some '/' then resolvePath temp (pathB.drop (length + 1)) else temp
termination_by pathB.length
decreasing_by
  all_goals
    have hne : pathB.length ≠ 0 := by rwa [ne_eq, List.length_eq_zero_iff]
    rw [List.length_drop]
    try split
    all_goals omega

/-! ## What it is for -/

/-- A path as its components. -/
abbrev Components := List (List Char)

/-- Components with single slashes between them. -/
def render (path : Components) : List Char := ['/'].intercalate path

/-- A component a normalised path may have. -/
structure IsName (component : List Char) : Prop where
  ne_nil : component ≠ []
  ne_dot : component ≠ ['.']
  ne_dots : component ≠ ['.', '.']
  slash_notMem : '/' ∉ component

/-- A normalised path. -/
def Normal (path : Components) : Prop := ∀ component ∈ path, IsName component

/-- One component followed from a path. -/
def follow (path : Components) (component : List Char) : Components :=
  if component = ['.'] then path
  else if component = ['.', '.'] then path.dropLast
  else path ++ [component]

/-- The non-empty components followed one after the other. -/
def followAll (path segments : Components) : Components :=
  (segments.filter (· ≠ [])).foldl follow path

/-- Where following `pathB` starts. -/
def start (base : Components) (pathB : List Char) : Components :=
  if pathB.head? = some '/' then [] else base

/-- The path that `pathB` names from `base`. -/
def resolved (base : Components) (pathB : List Char) : Components :=
  followAll (start base pathB) (pathB.splitOn '/')

/-- How many of the components it starts from the segments drop. -/
def drops : Components → ℕ
  | [] => 0
  | segment :: segments =>
    if segment = [] ∨ segment = ['.'] then drops segments
    else if segment = ['.', '.'] then drops segments + 1
    else drops segments - 1

variable {base path : Components} {component segment : List Char} {segments : Components}

/-! ## Following segments -/

/-- The cases of one segment. -/
theorem segment_cases (segment : List Char) :
    segment = [] ∨ segment = ['.'] ∨ segment = ['.', '.'] ∨
      (segment ≠ [] ∧ segment ≠ ['.'] ∧ segment ≠ ['.', '.']) := by
  by_cases hnil : segment = []
  · exact Or.inl hnil
  by_cases hdot : segment = ['.']
  · exact Or.inr (Or.inl hdot)
  by_cases hdots : segment = ['.', '.']
  · exact Or.inr (Or.inr (Or.inl hdots))
  · exact Or.inr (Or.inr (Or.inr ⟨hnil, hdot, hdots⟩))

@[simp] theorem follow_dot (path : Components) : follow path ['.'] = path := rfl

@[simp] theorem follow_dots (path : Components) : follow path ['.', '.'] = path.dropLast := rfl

theorem follow_name (hdot : segment ≠ ['.']) (hdots : segment ≠ ['.', '.']) (path : Components) :
    follow path segment = path ++ [segment] := by
  rw [follow, if_neg hdot, if_neg hdots]

@[simp] theorem drops_nil : drops [] = 0 := rfl

@[simp] theorem drops_empty (segments : Components) : drops ([] :: segments) = drops segments := rfl

@[simp] theorem drops_dot (segments : Components) : drops (['.'] :: segments) = drops segments :=
  rfl

@[simp] theorem drops_dots (segments : Components) :
    drops (['.', '.'] :: segments) = drops segments + 1 := rfl

theorem drops_name (hnil : segment ≠ []) (hdot : segment ≠ ['.']) (hdots : segment ≠ ['.', '.'])
    (segments : Components) : drops (segment :: segments) = drops segments - 1 := by
  rw [drops, if_neg (not_or.mpr ⟨hnil, hdot⟩), if_neg hdots]

@[simp] theorem followAll_nil (path : Components) : followAll path [] = path := rfl

@[simp] theorem followAll_empty (path segments : Components) :
    followAll path ([] :: segments) = followAll path segments := by
  simp [followAll]

theorem followAll_cons (hnil : segment ≠ []) (path segments : Components) :
    followAll path (segment :: segments) = followAll (follow path segment) segments := by
  simp [followAll, hnil]

/-- **What is dropped is at the end of what was there**, and what is added
does not depend on it. -/
theorem followAll_eq (path segments : Components) :
    followAll path segments =
      path.take (path.length - drops segments) ++ followAll [] segments := by
  induction segments generalizing path with
  | nil => simp
  | cons segment segments ih =>
    obtain rfl | rfl | rfl | ⟨hnil, hdot, hdots⟩ := segment_cases segment
    · rw [followAll_empty, followAll_empty, drops_empty]
      exact ih path
    · rw [followAll_cons (by decide), followAll_cons (by decide), follow_dot, follow_dot, drops_dot]
      exact ih path
    · rw [followAll_cons (by decide), followAll_cons (by decide), follow_dots, follow_dots,
        drops_dots, ih, List.dropLast_nil, List.dropLast_eq_take, List.take_take, List.length_take]
      congr 2
      omega
    · rw [followAll_cons hnil, followAll_cons hnil, follow_name hdot hdots, follow_name hdot hdots,
        drops_name hnil hdot hdots, ih, ih ([] ++ [segment]), ← List.append_assoc, List.take_append,
        List.length_append, List.length_singleton, List.nil_append, List.length_singleton]
      -- a name is what the first drop of the rest drops
      have hfirst : path.length + 1 - drops segments - path.length = 1 - drops segments := by omega
      have hrest : path.take (path.length + 1 - drops segments) =
          path.take (path.length - (drops segments - 1)) := by
        obtain hzero | hpos := Nat.eq_zero_or_pos (drops segments)
        · rw [List.take_of_length_le (by omega), List.take_of_length_le (by omega)]
        · congr 1
          omega
      rw [hfirst, hrest]

theorem length_followAll (path segments : Components) :
    (followAll path segments).length =
      path.length - drops segments + (followAll [] segments).length := by
  rw [followAll_eq, List.length_append, List.length_take]
  omega

/-- Nothing is left of a path that is no longer than what is dropped. -/
theorem followAll_of_le (h : path.length ≤ drops segments) :
    followAll path segments = followAll [] segments := by
  rw [followAll_eq, Nat.sub_eq_zero_of_le h, List.take_zero, List.nil_append]

/-- What the later segments drop, they drop of the earlier ones first. -/
theorem drops_append (before after : Components) :
    drops (before ++ after) =
      drops before + (drops after - (followAll [] before).length) := by
  induction before with
  | nil => simp
  | cons segment before ih =>
    rw [List.cons_append]
    obtain rfl | rfl | rfl | ⟨hnil, hdot, hdots⟩ := segment_cases segment
    · rw [drops_empty, drops_empty, followAll_empty, ih]
    · rw [drops_dot, drops_dot, followAll_cons (by decide), follow_dot, ih]
    · rw [drops_dots, drops_dots, followAll_cons (by decide), follow_dots, List.dropLast_nil, ih]
      omega
    · rw [drops_name hnil hdot hdots, drops_name hnil hdot hdots, followAll_cons hnil,
        follow_name hdot hdots, length_followAll, List.nil_append, List.length_singleton, ih]
      omega

theorem Normal.follow (hpath : Normal path) (hnil : segment ≠ []) (hslash : '/' ∉ segment) :
    Normal (follow path segment) := by
  obtain rfl | rfl | rfl | ⟨-, hdot, hdots⟩ := segment_cases segment
  · exact absurd rfl hnil
  · exact hpath
  · intro component hmem
    exact hpath component (List.dropLast_subset _ hmem)
  · rw [follow_name hdot hdots]
    intro component hmem
    obtain hmem | hmem := List.mem_append.mp hmem
    · exact hpath component hmem
    · obtain rfl := List.mem_singleton.mp hmem
      exact ⟨hnil, hdot, hdots, hslash⟩

theorem Normal.followAll (hpath : Normal path) (hsegments : ∀ segment ∈ segments, '/' ∉ segment) :
    Normal (followAll path segments) := by
  induction segments generalizing path with
  | nil => exact hpath
  | cons segment segments ih =>
    obtain ⟨hsegment, hsegments⟩ := List.forall_mem_cons.mp hsegments
    by_cases hnil : segment = []
    · rw [hnil, followAll_empty]
      exact ih hpath hsegments
    · rw [followAll_cons hnil]
      exact ih (hpath.follow hnil hsegment) hsegments

/-! ## The code, segment by segment -/

/-- `resolvePath` on segments: an empty one that another follows is a restart. -/
def walk (path : Components) : Components → Components
  | [] => path
  | [segment] => if segment = [] then path else follow path segment
  | segment :: next :: segments =>
    if segment = [] then walk [] (next :: segments)
    else walk (follow path segment) (next :: segments)

/-- The last segment is followed, also where it is empty. -/
theorem walk_singleton (path : Components) (segment : List Char) :
    walk path [segment] = followAll path [segment] := by
  by_cases hnil : segment = []
  · rw [hnil, followAll_empty]
    rfl
  · rw [followAll_cons hnil, walk, if_neg hnil, followAll_nil]

theorem walk_empty (h : segments ≠ []) (path : Components) :
    walk path ([] :: segments) = walk [] segments := by
  obtain ⟨next, segments, rfl⟩ := List.exists_cons_of_ne_nil h
  rw [walk, if_pos rfl]

theorem walk_cons (hnil : segment ≠ []) (h : segments ≠ []) (path : Components) :
    walk path (segment :: segments) = walk (follow path segment) segments := by
  obtain ⟨next, segments, rfl⟩ := List.exists_cons_of_ne_nil h
  rw [walk, if_neg hnil]

theorem Normal.nil : Normal [] := by
  intro component hmem
  cases hmem

theorem Normal.walk (hpath : Normal path) (hsegments : ∀ segment ∈ segments, '/' ∉ segment) :
    Normal (walk path segments) := by
  induction segments generalizing path with
  | nil => exact hpath
  | cons segment segments ih =>
    by_cases hlast : segments = []
    · rw [hlast] at hsegments ⊢
      rw [walk_singleton]
      exact hpath.followAll hsegments
    obtain ⟨hsegment, hsegments⟩ := List.forall_mem_cons.mp hsegments
    by_cases hnil : segment = []
    · rw [hnil, walk_empty hlast]
      exact ih Normal.nil hsegments
    · rw [walk_cons hnil hlast]
      exact ih (hpath.follow hnil hsegment) hsegments

/-- A restart only ever loses components. -/
theorem length_walk_le (path segments : Components) :
    (walk path segments).length ≤ (followAll path segments).length := by
  induction segments generalizing path with
  | nil => exact Nat.le_refl _
  | cons segment segments ih =>
    by_cases hlast : segments = []
    · exact Nat.le_of_eq (by rw [hlast, walk_singleton])
    by_cases hnil : segment = []
    · rw [hnil, walk_empty hlast, followAll_empty]
      have hempty := ih []
      have hlen := length_followAll path segments
      omega
    · rw [walk_cons hnil hlast, followAll_cons hnil]
      exact ih _

/-- **A restart does no harm exactly where nothing of what it forgets would
have been left.** -/
theorem walk_eq_followAll_iff (path segments : Components) :
    walk path segments = followAll path segments ↔
      ∀ before after, segments = before ++ [] :: after → after ≠ [] →
        (followAll path before).length ≤ drops after := by
  induction segments generalizing path with
  | nil =>
    refine ⟨fun _ before after h => ?_, fun _ => rfl⟩
    simp at h
  | cons segment segments ih =>
    by_cases hlast : segments = []
    · subst hlast
      refine ⟨fun _ before after hsplit hafter => ?_, fun _ => walk_singleton path segment⟩
      obtain ⟨-, hsplit⟩ | ⟨rest, -, hsplit⟩ := List.cons_eq_append_iff.mp hsplit
      · exact absurd (List.cons.inj hsplit).2 hafter
      · simp at hsplit
    by_cases hnil : segment = []
    · subst hnil
      rw [walk_empty hlast, followAll_empty]
      constructor
      · -- the two lengths agree, which leaves nothing of `path`
        intro heq
        have hwalk := length_walk_le [] segments
        have hlen := length_followAll path segments
        rw [heq] at hwalk
        have hle : path.length ≤ drops segments := by omega
        rw [followAll_of_le hle] at heq
        intro before after hsplit hafter
        obtain ⟨rfl, hrest⟩ | ⟨before, rfl, hrest⟩ := List.cons_eq_append_iff.mp hsplit
        · obtain ⟨-, rfl⟩ := List.cons.inj hrest
          exact hle
        · have hbefore := (ih []).mp heq before after hrest hafter
          have hdrops := drops_append before ([] :: after)
          rw [drops_empty, ← hrest] at hdrops
          rw [followAll_empty, length_followAll]
          omega
      · intro h
        have hle : path.length ≤ drops segments := h [] segments rfl hlast
        rw [followAll_of_le hle]
        refine (ih []).mpr fun before after hsplit hafter => ?_
        have hbefore := h ([] :: before) after (by rw [hsplit, List.cons_append]) hafter
        rw [followAll_empty, length_followAll] at hbefore
        omega
    · rw [walk_cons hnil hlast, followAll_cons hnil, ih]
      constructor
      · intro h before after hsplit hafter
        obtain ⟨rfl, hrest⟩ | ⟨before, rfl, hrest⟩ := List.cons_eq_append_iff.mp hsplit
        · exact absurd (List.cons.inj hrest).1 (Ne.symm hnil)
        · rw [followAll_cons hnil]
          exact h before after hrest hafter
      · intro h before after hsplit hafter
        have hbefore := h (segment :: before) after (by rw [hsplit, List.cons_append]) hafter
        rwa [followAll_cons hnil] at hbefore

/-! ## Characters -/

@[simp] theorem render_nil : render [] = [] := rfl

@[simp] theorem render_singleton (component : List Char) : render [component] = component :=
  List.intercalate_singleton

theorem render_cons (h : segments ≠ []) :
    render (segment :: segments) = segment ++ '/' :: render segments := by
  rw [render, List.intercalate_cons_of_ne_nil h, render, List.append_assoc, List.singleton_append]

theorem render_concat (h : path ≠ []) (component : List Char) :
    render (path ++ [component]) = render path ++ '/' :: component := by
  induction path with
  | nil => exact absurd rfl h
  | cons first path ih =>
    rw [List.cons_append, render_cons (by simp)]
    by_cases hpath : path = []
    · simp [hpath]
    · rw [ih hpath, render_cons hpath, List.append_assoc, List.cons_append]

theorem Normal.render_eq_nil (hpath : Normal path) : render path = [] ↔ path = [] := by
  refine ⟨fun h => ?_, fun h => h ▸ rfl⟩
  cases path with
  | nil => rfl
  | cons first path =>
    have hfirst := (hpath first List.mem_cons_self).ne_nil
    by_cases hlast : path = []
    · rw [hlast, render_singleton] at h
      exact absurd h hfirst
    · rw [render_cons hlast] at h
      simp at h

theorem Normal.splitOn_render (hpath : Normal path) (hne : path ≠ []) :
    (render path).splitOn '/' = path :=
  List.splitOn_intercalate '/' (fun component hmem => (hpath component hmem).slash_notMem) hne

/-- A normalised path has one rendering. -/
theorem Normal.render_inj {other : Components} (hpath : Normal path) (hother : Normal other) :
    render path = render other ↔ path = other := by
  refine ⟨fun h => ?_, fun h => h ▸ rfl⟩
  by_cases hnil : path = []
  · rw [hnil, render_nil] at h
    rw [hnil, hother.render_eq_nil.mp h.symm]
  · have hne : other ≠ [] := fun hother' => hnil (hpath.render_eq_nil.mp (by rw [h, hother']; rfl))
    rw [← hpath.splitOn_render hnil, h, hother.splitOn_render hne]

/-- A segment holds no slash. -/
theorem notMem_of_mem_splitOn (text : List Char) :
    ∀ segment ∈ text.splitOn '/', '/' ∉ segment := by
  induction text with
  | nil => simp [List.splitOn_nil]
  | cons c text ih =>
    rw [List.splitOn_cons_eq_if_modifyHead]
    obtain ⟨first, rest, hsplit⟩ := List.exists_cons_of_ne_nil (List.splitOn_ne_nil '/' text)
    rw [hsplit] at ih ⊢
    split
    · simpa using ih
    · rename_i hc
      rw [List.modifyHead_cons]
      intro segment hmem
      obtain rfl | hmem := List.mem_cons.mp hmem
      · intro hslash
        obtain hslash | hslash := List.mem_cons.mp hslash
        · simp [← hslash] at hc
        · exact ih first List.mem_cons_self hslash
      · exact ih segment (List.mem_cons_of_mem _ hmem)

/-! ## The cases of the code -/

theorem parentLength_of_notMem {text : List Char} (h : '/' ∉ text) (length : ℕ) :
    parentLength text length = 0 := by
  induction length with
  | zero => rfl
  | succ length ih =>
    rw [parentLength, if_neg, ih]
    intro hget
    exact h (List.mem_of_getElem? hget)

theorem parentLength_append {text : List Char} (before : List Char) (h : '/' ∉ text) :
    ∀ n ≤ text.length, parentLength (before ++ '/' :: text) (before.length + 1 + n) =
      before.length + 1 := by
  intro n hn
  induction n with
  | zero => rw [Nat.add_zero, parentLength, if_pos (by simp)]
  | succ n ih =>
    rw [← Nat.add_assoc, parentLength, if_neg, ih (by omega)]
    intro hget
    have hindex : before.length + 1 + n - before.length = n + 1 := by omega
    rw [List.getElem?_append_right (by omega), hindex, List.getElem?_cons_succ] at hget
    exact h (List.mem_of_getElem? hget)

/-- The `..` case takes the last component off. -/
theorem Normal.take_parentLength (hpath : Normal path) :
    (render path).take (parentLength (render path) (render path).length - 1) =
      render path.dropLast := by
  obtain rfl | ⟨before, component, rfl⟩ := List.eq_nil_or_concat' path
  · rfl
  have hslash := (hpath component (by simp)).slash_notMem
  rw [List.dropLast_concat]
  by_cases hbefore : before = []
  · rw [hbefore, List.nil_append, render_singleton, parentLength_of_notMem hslash]
    rfl
  · rw [render_concat hbefore]
    have hlength := parentLength_append (render before) hslash component.length (Nat.le_refl _)
    rw [List.length_append, List.length_cons,
      show (render before).length + (component.length + 1) =
        (render before).length + 1 + component.length by omega, hlength,
      Nat.add_sub_cancel, List.take_left']
    rfl

/-- The last case puts a component on. -/
theorem Normal.render_concat (hpath : Normal path) (component : List Char) :
    render path ++ (if render path = [] then [] else ['/']) ++ component =
      render (path ++ [component]) := by
  by_cases hnil : path = []
  · simp [hnil]
  · rw [if_neg (mt hpath.render_eq_nil.mp hnil), Cli.render_concat hnil, List.append_assoc,
      List.singleton_append]

/-- The name that a path begins with. -/
theorem takeWhile_append (h : '/' ∉ segment) (rest : List Char) :
    (segment ++ '/' :: rest).takeWhile (· ≠ '/') = segment := by
  rw [List.takeWhile_append_of_pos, List.takeWhile_cons_of_neg (by simp), List.append_nil]
  intro c hc
  simpa using fun heq : c = '/' => h (heq ▸ hc)

theorem takeWhile_of_notMem (h : '/' ∉ segment) :
    segment.takeWhile (· ≠ '/') = segment := by
  rw [List.takeWhile_eq_self_iff]
  intro c hc
  simpa using fun heq : c = '/' => h (heq ▸ hc)

/-- Neither of the two dot cases is taken for a name. -/
theorem not_dots_of_name {text : List Char} (hnil : segment ≠ []) (hdot : segment ≠ ['.'])
    (hdots : segment ≠ ['.', '.']) (hslash : '/' ∉ segment)
    (htext : text = segment ∨ ∃ rest, text = segment ++ '/' :: rest) :
    text ≠ [] ∧ text[0]? ≠ some '/' ∧
      ¬(text[0]? = some '.' ∧ text[1]? = some '.' ∧ (text[2]? = some '/' ∨ text[2]? = none)) ∧
      ¬(text[0]? = some '.' ∧ (text[1]? = some '/' ∨ text[1]? = none)) := by
  have hchars : ∀ c ∈ segment, c ≠ '/' := fun c hc heq => hslash (heq ▸ hc)
  match segment, hnil, hdot, hdots, hchars with
  | [a], _, hdot, _, hchars =>
    obtain rfl | ⟨rest, rfl⟩ := htext <;> simp_all
  | [a, b], _, _, hdots, hchars =>
    obtain rfl | ⟨rest, rfl⟩ := htext <;> simp_all
  | a :: b :: c :: more, _, _, _, hchars =>
    obtain rfl | ⟨rest, rfl⟩ := htext <;> simp_all

/-- **One segment before a slash.** -/
theorem resolvePath_cons (hpath : Normal path) (hslash : '/' ∉ segment) (rest : List Char) :
    resolvePath (render path) (segment ++ '/' :: rest) =
      resolvePath (render (if segment = [] then [] else follow path segment)) rest := by
  obtain rfl | rfl | rfl | ⟨hnil, hdot, hdots⟩ := segment_cases segment
  · rw [resolvePath, if_neg (by simp), if_pos (by simp)]
    rfl
  · rw [resolvePath, if_neg (by simp), if_neg (by simp), if_neg (by simp), if_pos (by simp)]
    rfl
  · rw [resolvePath, if_neg (by simp), if_neg (by simp), if_pos (by simp), if_neg (by simp),
      hpath.take_parentLength]
    rfl
  · obtain ⟨h1, h2, h3, h4⟩ := not_dots_of_name hnil hdot hdots hslash (Or.inr ⟨rest, rfl⟩)
    rw [resolvePath, if_neg h1, if_neg h2, if_neg h3, if_neg h4, takeWhile_append hslash,
      if_pos (by simp), List.take_left' rfl, hpath.render_concat, if_neg hnil,
      follow_name hdot hdots, List.drop_length_add_append]
    rfl

/-- The last segment. -/
theorem resolvePath_last (hpath : Normal path) (hslash : '/' ∉ segment) :
    resolvePath (render path) segment =
      render (if segment = [] then path else follow path segment) := by
  obtain rfl | rfl | rfl | ⟨hnil, hdot, hdots⟩ := segment_cases segment
  · rw [resolvePath, if_pos rfl, if_pos rfl]
  · rw [resolvePath, if_neg (by simp), if_neg (by simp), if_neg (by simp), if_pos (by simp),
      resolvePath, if_pos (by simp)]
    rfl
  · rw [resolvePath, if_neg (by simp), if_neg (by simp), if_pos (by simp), if_pos (by simp),
      hpath.take_parentLength]
    rfl
  · obtain ⟨h1, h2, h3, h4⟩ := not_dots_of_name hnil hdot hdots hslash (Or.inl rfl)
    rw [resolvePath, if_neg h1, if_neg h2, if_neg h3, if_neg h4, takeWhile_of_notMem hslash,
      if_neg (by simp), List.take_length, hpath.render_concat, if_neg hnil, follow_name hdot hdots]

/-- The code is the walk over the segments. -/
theorem resolvePath_render (hpath : Normal path) (hne : segments ≠ [])
    (hsegments : ∀ segment ∈ segments, '/' ∉ segment) :
    resolvePath (render path) (render segments) = render (walk path segments) := by
  induction segments generalizing path with
  | nil => exact absurd rfl hne
  | cons segment segments ih =>
    obtain ⟨hsegment, hsegments⟩ := List.forall_mem_cons.mp hsegments
    by_cases hlast : segments = []
    · rw [hlast, render_singleton, resolvePath_last hpath hsegment]
      rfl
    rw [render_cons hlast, resolvePath_cons hpath hsegment]
    by_cases hnil : segment = []
    · rw [if_pos hnil, hnil, walk_empty hlast]
      exact ih Normal.nil hlast hsegments
    · rw [if_neg hnil, walk_cons hnil hlast]
      exact ih (hpath.follow hnil hsegment) hlast hsegments

theorem resolvePath_eq_walk (hbase : Normal base) (pathB : List Char) :
    resolvePath (render base) pathB = render (walk base (pathB.splitOn '/')) := by
  have h := resolvePath_render hbase (List.splitOn_ne_nil '/' pathB) (notMem_of_mem_splitOn pathB)
  rwa [render, render, List.intercalate_splitOn] at h

/-! ## The result -/

theorem Normal.start (hbase : Normal base) (pathB : List Char) : Normal (start base pathB) := by
  rw [Cli.start]
  split
  · exact Normal.nil
  · exact hbase

theorem Normal.resolved (hbase : Normal base) (pathB : List Char) : Normal (resolved base pathB) :=
  (hbase.start pathB).followAll (notMem_of_mem_splitOn pathB)

/-- A leading slash is an empty segment that another follows. -/
theorem walk_start (base : Components) (pathB : List Char) :
    walk base (pathB.splitOn '/') = walk (start base pathB) (pathB.splitOn '/') := by
  rw [start]
  split
  · rename_i hhead
    obtain ⟨rest, rfl⟩ : ∃ rest, pathB = '/' :: rest := by
      cases pathB with
      | nil => simp at hhead
      | cons c rest => exact ⟨rest, by simpa using hhead⟩
    rw [List.splitOn_cons_eq_if_modifyHead, if_pos (by simp),
      walk_empty (List.splitOn_ne_nil _ _), walk_empty (List.splitOn_ne_nil _ _)]
  · rfl

/-- **The path is resolved exactly where every empty component that a slash
follows comes where the rest drops all there is**: the code starts again from
the root there. -/
theorem resolvePath_eq_iff (hbase : Normal base) (pathB : List Char) :
    resolvePath (render base) pathB = render (resolved base pathB) ↔
      ∀ before after, pathB.splitOn '/' = before ++ [] :: after → after ≠ [] →
        (followAll (start base pathB) before).length ≤ drops after := by
  have hwalk := (hbase.start pathB).walk (notMem_of_mem_splitOn pathB)
  rw [resolvePath_eq_walk hbase, walk_start, hwalk.render_inj (hbase.resolved pathB), resolved]
  exact walk_eq_followAll_iff _ _

theorem normal_x : Normal [['x']] := by
  intro component hmem
  obtain rfl := List.mem_singleton.mp hmem
  exact ⟨by decide, by decide, by decide, by decide⟩

/-- From `x`, `..//y` is `y`. -/
theorem resolvePath_dots_slashes :
    resolvePath (render [['x']]) ['.', '.', '/', '/', 'y'] =
        render (resolved [['x']] ['.', '.', '/', '/', 'y']) ↔
      ∀ before after, ['.', '.', '/', '/', 'y'].splitOn '/' = before ++ [] :: after → after ≠ [] →
        (followAll (start [['x']] ['.', '.', '/', '/', 'y']) before).length ≤ drops after :=
  resolvePath_eq_iff normal_x _

/-- From `x`, `a//b` is `b` and not `x/a/b`. -/
theorem not_resolves_slashes :
    Normal [['x']] ∧
      resolvePath (render [['x']]) ['a', '/', '/', 'b'] = ['b'] ∧
      render (resolved [['x']] ['a', '/', '/', 'b']) = ['x', '/', 'a', '/', 'b'] := by
  refine ⟨normal_x, ?_, by decide⟩
  rw [resolvePath_eq_walk normal_x]
  decide

end Cli

end Uberos
