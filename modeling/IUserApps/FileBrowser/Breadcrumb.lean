import IUserApps.Compositor.Geometry
import IUserApps.FileBrowser.Opening
import Mathlib.Data.List.Infix

/-!
# The breadcrumb

The current folder as segments that can be clicked. `layout` splits the path in a buffer of
`nameCapacity` bytes, so that a longer component becomes several segments, and rebuilds the
folders' paths from what the buffer held. `Segments` and `Clicks` say what the segments are for, and
`segments_clicks_iff` for which paths `layout` gives them.
-/

namespace IUserApps.FileBrowser

open Compositor (Rect Ui)

/-- The segments shown at most. -/
def kMaxSegments : ℕ := 12

/-- The size of the buffers for the names of segments. -/
def nameCapacity : ℕ := 64

/-- A segment of the breadcrumb. -/
structure Segment where
  name : Path
  path : Path
  rect : Rect
deriving DecidableEq

/-- How wide texts are in the theme's two fonts, how wide the image between two segments is (0
without one) and how high the control is. -/
structure Looks where
  font : Path → ℕ
  fontMedium : Path → ℕ
  chevronWidth : ℕ
  height : ℤ

/-- The segments so far, and where the next one begins. -/
structure Crumbs where
  segments : List Segment
  x : ℤ

/-- The `add` of `Breadcrumb::layout`. -/
def Crumbs.add (looks : Looks) (crumbs : Crumbs) (name path : Path) (chip : Bool) : Crumbs :=
  if crumbs.segments.length = kMaxSegments then crumbs
  else
    let name := copyString nameCapacity name
    let width := if chip then looks.fontMedium name else looks.font name
    let s : Segment := ⟨name, copyString pathCapacity path, ⟨crumbs.x, 0, width, looks.height⟩⟩
    ⟨crumbs.segments ++ [s], crumbs.x + (width + 8 + looks.chevronWidth + 10)⟩

/-- The segments of what is left of the path, in at most `n` passes, after the folder `path`. -/
def layoutFrom (looks : Looks) : ℕ → Path → Path → Crumbs → Crumbs
  | 0, _, _, crumbs => crumbs
  | n + 1, p, path, crumbs =>
    let p := p.dropWhile (· = slash)
    if p = [] then crumbs
    else
      let name := (p.takeWhile (· ≠ slash)).take (nameCapacity - 1)
      let p := p.drop name.length
      let path := if pathIsRoot path then path else appendText pathCapacity path [slash]
      let path := appendText pathCapacity path name
      layoutFrom looks n p path (crumbs.add looks name path (p = []))

/-- Each pass takes a byte or more, so the length of the path is enough of them. -/
def layout (looks : Looks) (path : Path) : List Segment :=
  (layoutFrom looks path.length path [slash]
    (Crumbs.add looks ⟨[], 12⟩ [slash] [slash] false)).segments

/-- The path that a click navigates to. -/
def mouseDown [Ui] (looks : Looks) (path : Path) (left : Bool) (x y : ℤ) : Option Path :=
  if left = false then none
  else ((layout looks path).dropLast.find? fun s => s.rect.contains x y).map (·.path)

/-! ## Components -/

/-- The components of a path. -/
def components (path : Path) : List Path := (path.splitOn slash).filter (· ≠ [])

/-- The folder that these components lead to from the root. -/
def folderOf (components : List Path) : Path := components.foldl childPath [slash]

/-- The components around a slash are those of both sides. -/
theorem components_append (path path' : Path) :
    components (path ++ slash :: path') = components path ++ components path' := by
  unfold components
  rw [List.splitOn_append_cons_self, List.filter_append]

/-- A leading slash adds no component. -/
theorem components_slash (path : Path) : components (slash :: path) = components path :=
  components_append [] path

/-- A name is its own component. -/
theorem components_of_no_slash {path : Path} (h : slash ∉ path) (hne : path ≠ []) :
    components path = [path] := by
  unfold components
  rw [List.splitOn_eq_singleton h]
  exact List.filter_cons_of_pos (decide_eq_true hne)

/-- Slashes in front of a path change no component. -/
theorem components_dropWhile (path : Path) :
    components (path.dropWhile (· = slash)) = components path := by
  induction path with
  | nil => rfl
  | cons c path ih =>
    by_cases hc : c = slash
    · rw [List.dropWhile_cons, if_pos (decide_eq_true hc), ih, hc, components_slash]
    · rw [List.dropWhile_cons, if_neg (by simpa using hc)]

/-- Nothing, or a component ended before. -/
def AtSlash (path : Path) : Prop := path = [] ∨ path.head? = some slash

/-- A name before a slash, or before the end, is the first component. -/
theorem components_append_rest {name rest : Path} (hne : name ≠ []) (hno : slash ∉ name)
    (hrest : AtSlash rest) : components (name ++ rest) = name :: components rest := by
  rcases hrest with rfl | hhead
  · rw [List.append_nil, components_of_no_slash hno hne]
    rfl
  · obtain ⟨rest, rfl⟩ := List.head?_eq_some_iff.1 hhead
    rw [components_append, components_of_no_slash hno hne, components_slash]
    rfl

/-- Behind a component there is a slash, or nothing. -/
theorem atSlash_dropWhile (path : Path) : AtSlash (path.dropWhile (· ≠ slash)) := by
  by_cases hnil : path.dropWhile (· ≠ slash) = []
  · exact Or.inl hnil
  · have hhead := List.head_dropWhile_not (· ≠ slash) hnil
    refine Or.inr ?_
    rw [List.head?_eq_some_head hnil]
    simpa using hhead

/-- What is left of a path: nothing but slashes, or slashes, a component and the rest. -/
theorem split_path (p : Path) :
    p.dropWhile (· = slash) = [] ∧ components p = [] ∨
      ∃ name rest, p.dropWhile (· = slash) = name ++ rest ∧
        (name ++ rest).takeWhile (· ≠ slash) = name ∧ name ≠ [] ∧ AtSlash rest ∧
        components p = name :: components rest := by
  have hcomponents := components_dropWhile p
  by_cases hnil : p.dropWhile (· = slash) = []
  · rw [hnil] at hcomponents
    exact Or.inl ⟨hnil, hcomponents.symm⟩
  have hhead := List.head_dropWhile_not (· = slash) hnil
  rw [← hcomponents]
  generalize p.dropWhile (· = slash) = q at *
  have hsplit := List.takeWhile_append_dropWhile (p := (· ≠ slash)) (l := q)
  have hne : q.takeWhile (· ≠ slash) ≠ [] := by
    obtain ⟨c, q, rfl⟩ := List.exists_cons_of_ne_nil hnil
    have hc : c ≠ slash := of_decide_eq_false hhead
    rw [List.takeWhile_cons, if_pos (decide_eq_true hc)]
    exact List.cons_ne_nil _ _
  have hno : slash ∉ q.takeWhile (· ≠ slash) := fun h => by
    have := List.mem_takeWhile_imp h
    simp at this
  have hrest := atSlash_dropWhile q
  refine Or.inr ⟨q.takeWhile (· ≠ slash), q.dropWhile (· ≠ slash), hsplit.symm, ?_, hne, hrest, ?_⟩
  · rw [hsplit]
  · rw [← components_append_rest hne hno hrest, hsplit]

/-! ## The loop -/

/-- What `add` is called with in the loop of `layout`. -/
structure Crumb where
  name : Path
  path : Path
  chip : Bool

/-- The calls of `add` for what is left of the path. -/
def crumbsFrom : ℕ → Path → Path → List Crumb
  | 0, _, _ => []
  | n + 1, p, path =>
    let p := p.dropWhile (· = slash)
    if p = [] then []
    else
      let name := (p.takeWhile (· ≠ slash)).take (nameCapacity - 1)
      let p := p.drop name.length
      let path := if pathIsRoot path then path else appendText pathCapacity path [slash]
      let path := appendText pathCapacity path name
      ⟨name, path, p = []⟩ :: crumbsFrom n p path

/-- The loop adds the crumbs one after another. -/
theorem layoutFrom_eq (looks : Looks) (n : ℕ) (p path : Path) (crumbs : Crumbs) :
    layoutFrom looks n p path crumbs = (crumbsFrom n p path).foldl
      (fun crumbs c => crumbs.add looks c.name c.path c.chip) crumbs := by
  induction n generalizing p path crumbs with
  | zero => rfl
  | succ n ih =>
    unfold layoutFrom crumbsFrom
    dsimp only
    split
    · rfl
    · rw [List.foldl_cons, ih]

/-- The names and paths of the segments are those that `add` was called with, as many as there is
room for. -/
theorem foldl_add (looks : Looks) (calls : List Crumb) (crumbs : Crumbs)
    (hroom : crumbs.segments.length ≤ kMaxSegments) :
    let added := calls.foldl (fun crumbs c => crumbs.add looks c.name c.path c.chip) crumbs
    added.segments.map (·.name) = (crumbs.segments.map (·.name) ++
        calls.map (copyString nameCapacity ·.name)).take kMaxSegments ∧
      added.segments.map (·.path) = (crumbs.segments.map (·.path) ++
        calls.map (copyString pathCapacity ·.path)).take kMaxSegments := by
  induction calls generalizing crumbs with
  | nil =>
    simp only [List.foldl_nil, List.map_nil, List.append_nil]
    constructor
    · rw [List.take_of_length_le (by rw [List.length_map]; exact hroom)]
    · rw [List.take_of_length_le (by rw [List.length_map]; exact hroom)]
  | cons c calls ih =>
    rw [List.foldl_cons]
    by_cases hfull : crumbs.segments.length = kMaxSegments
    · -- A full trail takes no more segments, and neither does the prefix of the names.
      have hsame : crumbs.add looks c.name c.path c.chip = crumbs := if_pos hfull
      have htake : ∀ (f : Segment → Path) (l : List Path),
          (crumbs.segments.map f ++ l).take kMaxSegments = crumbs.segments.map f := by
        intro f l
        rw [← hfull, ← List.length_map f, List.take_left]
      rw [hsame]
      have := ih crumbs hroom
      simp only [htake] at this ⊢
      exact this
    · have hadd : (crumbs.add looks c.name c.path c.chip).segments.length =
          crumbs.segments.length + 1 := by
        unfold Crumbs.add
        rw [if_neg hfull]
        exact List.length_append
      have := ih (crumbs.add looks c.name c.path c.chip) (by omega)
      unfold Crumbs.add at this ⊢
      rw [if_neg hfull] at this ⊢
      simpa using this

/-- The part of a folder's path before an entry's slash is no longer than the path. -/
theorem length_folderPrefix_le (folder : Path) : (folderPrefix folder).length ≤ folder.length := by
  unfold folderPrefix
  split
  · exact Nat.zero_le _
  · exact Nat.le_refl _

/-- The length of an entry's path. -/
theorem length_childPath (folder name : Path) :
    (childPath folder name).length = (folderPrefix folder).length + name.length + 1 := by
  unfold childPath
  rw [List.length_append, List.length_cons, Nat.add_assoc]

/-- A pass takes what the buffer holds of the next component. -/
theorem crumbsFrom_succ (n : ℕ) {p path name rest : Path} (hpath : Fits path)
    (hsplit : p.dropWhile (· = slash) = name ++ rest)
    (htake : (name ++ rest).takeWhile (· ≠ slash) = name) (hne : name ≠ []) :
    let held := name.take (nameCapacity - 1)
    let left := (name ++ rest).drop held.length
    let folder := copyString pathCapacity (childPath path held)
    crumbsFrom (n + 1) p path = ⟨held, folder, left = []⟩ :: crumbsFrom n left folder := by
  have hfull : name ++ rest ≠ [] := fun h => hne (List.append_eq_nil_iff.1 h).1
  have hbuild := buildChildPath_eq path (name.take (nameCapacity - 1))
  unfold buildChildPath at hbuild
  rw [appendText_nil_of_fits hpath] at hbuild
  intro held left folder
  rw [crumbsFrom]
  dsimp only at hbuild ⊢
  rw [hsplit, if_neg hfull, htake, hbuild]

/-- Slashes in front of a component make the path shorter when they are dropped. -/
theorem AtSlash.length_dropWhile_lt {p : Path} (hp : AtSlash p)
    (hne : p.dropWhile (· = slash) ≠ []) : (p.dropWhile (· = slash)).length < p.length := by
  rcases hp with rfl | hhead
  · exact absurd rfl hne
  · obtain ⟨p, rfl⟩ := List.head?_eq_some_iff.1 hhead
    rw [List.dropWhile_cons, if_pos (decide_eq_true rfl), List.length_cons]
    exact Nat.lt_succ_of_le (List.dropWhile_sublist _).length_le

/-- The folders on the way through a name: its own, and those behind it. -/
theorem inits_foldl (path name : Path) (names : List Path) :
    (name :: names).inits.tail.map (List.foldl childPath path) =
      childPath path name :: names.inits.tail.map (List.foldl childPath (childPath path name)) := by
  rw [List.inits_cons, List.tail_cons, List.map_map]
  cases names with
  | nil => rfl
  | cons c names => rw [List.inits_cons, List.tail_cons, List.map_cons]; rfl

/-- The paths that `add` is called with first are those of the folders on the way, exactly when no
component of them is cut; and then the names are the components. -/
theorem crumbsFrom_iff (n m : ℕ) {p path : Path} (hn : p.length ≤ n) (hp : AtSlash p)
    (hpath : Fits path) (hfits : (folderPrefix path).length + p.length < pathCapacity) :
    (((crumbsFrom n p path).map (copyString pathCapacity ·.path)).take m =
        ((components p).inits.tail.map (List.foldl childPath path)).take m ↔
      ∀ c ∈ (components p).take m, c.length < nameCapacity) ∧
    ((∀ c ∈ (components p).take m, c.length < nameCapacity) →
      ((crumbsFrom n p path).map (copyString nameCapacity ·.name)).take m =
        (components p).take m) := by
  induction n generalizing m p path with
  | zero =>
    have hnil := List.eq_nil_of_length_eq_zero (Nat.le_zero.1 hn)
    subst hnil
    exact ⟨iff_of_true rfl fun c hc => by simp [components] at hc, fun _ => rfl⟩
  | succ n ih =>
    -- Each level shows one component, so the bound goes down with the fuel.
    cases m with
    | zero => simp
    | succ m =>
      rcases split_path p with
        ⟨hnil, hcomponents⟩ | ⟨name, rest, hsplit, htake, hne, hrest, hcomponents⟩
      · rw [hcomponents]
        unfold crumbsFrom
        simp [hnil]
      · have hstep := crumbsFrom_succ n hpath hsplit htake hne
        dsimp only at hstep
        have hpos := List.length_pos_of_ne_nil hne
        have hlen : name.length + rest.length < p.length := by
          rw [← List.length_append, ← hsplit]
          exact hp.length_dropWhile_lt (hsplit ▸ fun h => hne (List.append_eq_nil_iff.1 h).1)
        have hchild := length_childPath path name
        rw [hstep, hcomponents, inits_foldl]
        simp only [List.map_cons, List.take_succ_cons, List.forall_mem_cons, List.cons.injEq]
        -- A name that the buffer holds whole is appended whole, and the rest follows by induction.
        by_cases hshort : name.length < nameCapacity
        · have hwhole : Fits (childPath path name) := by
            unfold Fits
            omega
          have hrestFits : (folderPrefix (childPath path name)).length + rest.length <
              pathCapacity := by
            have := length_folderPrefix_le (childPath path name)
            omega
          have hheld : name.take (nameCapacity - 1) = name := copyString_of_lt hshort
          obtain ⟨hpaths, hnames⟩ := ih m (p := rest) (by omega) hrest hwhole hrestFits
          rw [hheld, List.drop_left, copyString_of_lt hwhole, copyString_of_lt hwhole]
          refine ⟨and_congr (iff_of_true rfl hshort) hpaths, fun hall => ⟨?_, hnames hall.2⟩⟩
          exact copyString_of_lt hshort
        · -- The folder's path ends with what the buffer holds of the name.
          refine ⟨iff_of_false (fun h => ?_) fun h => hshort h.1, fun h => absurd h.1 hshort⟩
          have hheld := length_childPath path (name.take (nameCapacity - 1))
          have hcut := congrArg List.length h.1
          have hle : ∀ text : Path, (copyString pathCapacity text).length ≤ text.length :=
            fun text => (List.take_sublist _ _).length_le
          have h1 := hle (copyString pathCapacity (childPath path (name.take (nameCapacity - 1))))
          have h2 := hle (childPath path (name.take (nameCapacity - 1)))
          rw [List.length_take] at hheld
          have hcap : nameCapacity = 64 := rfl
          omega

/-! ## The segments -/

/-- The root and the components of the path have a segment each, with its name and the path of its
folder, as far as there is room. -/
structure Segments (path : Path) : Prop where
  names : ∀ looks, (layout looks path).map (·.name) =
    ([slash] :: components path).take kMaxSegments
  paths : ∀ looks, (layout looks path).map (·.path) =
    ((components path).inits.map folderOf).take kMaxSegments

/-- A click on the segment of a folder above the path opens that folder. -/
def Clicks [Ui] (path : Path) : Prop :=
  ∀ looks x y k s, k < (components path).length → (layout looks path)[k]? = some s →
    s.rect.contains x y = true →
    mouseDown looks path true x y = some (folderOf ((components path).take k))

/-- The segments are the root's and the first of the crumbs, as many as there is room for. -/
theorem layout_eq (looks : Looks) (path : Path) :
    (layout looks path).map (·.name) = [slash] ::
        ((crumbsFrom path.length path [slash]).map (copyString nameCapacity ·.name)).take
          (kMaxSegments - 1) ∧
      (layout looks path).map (·.path) = [slash] ::
        ((crumbsFrom path.length path [slash]).map (copyString pathCapacity ·.path)).take
          (kMaxSegments - 1) := by
  unfold layout
  rw [layoutFrom_eq]
  have hroom : 1 ≤ kMaxSegments := by decide
  exact foldl_add looks _ _ hroom

/-- The segments are the folders on the way exactly when no shown component is too long for its
buffer. -/
theorem segments_iff {path : Path} (habsolute : path.head? = some slash) (hfits : Fits path) :
    Segments path ↔
      ∀ c ∈ (components path).take (kMaxSegments - 1), c.length < nameCapacity := by
  have hroot : (folderPrefix [slash]).length = 0 := rfl
  have hstart : Fits [slash] := by
    unfold Fits
    decide
  unfold Fits at hfits
  obtain ⟨hpaths, hnames⟩ := crumbsFrom_iff path.length (kMaxSegments - 1) (Nat.le_refl _)
    (Or.inr habsolute) hstart (by omega)
  have hinits : ((components path).inits.map folderOf).take kMaxSegments = [slash] ::
      ((components path).inits.tail.map (List.foldl childPath [slash])).take (kMaxSegments - 1) := by
    have hcons : (components path).inits = [] :: (components path).inits.tail := by
      cases components path with
      | nil => rfl
      | cons c cs => rw [List.inits_cons, List.tail_cons]
    rw [hcons]
    rfl
  constructor
  · intro h
    have := h.paths ⟨fun _ => 0, fun _ => 0, 0, 0⟩
    rw [(layout_eq _ path).2, hinits] at this
    exact hpaths.1 (List.cons.inj this).2
  · intro h
    refine ⟨fun looks => ?_, fun looks => ?_⟩
    · rw [(layout_eq looks path).1, hnames h]
      rfl
    · rw [(layout_eq looks path).2, hinits, hpaths.2 h]

/-! ## Clicks -/

/-- The segments lie side by side, and the next one begins behind them. -/
structure Laid (looks : Looks) (crumbs : Crumbs) : Prop where
  pairwise : crumbs.segments.Pairwise fun s t => s.rect.x + s.rect.width ≤ t.rect.x
  behind : ∀ s ∈ crumbs.segments, s.rect.x + s.rect.width ≤ crumbs.x
  rect : ∀ s ∈ crumbs.segments, s.rect.y = 0 ∧ s.rect.height = looks.height ∧
    (s.rect.width = looks.font s.name ∨ s.rect.width = looks.fontMedium s.name)

/-- One more segment stands behind the others. -/
theorem Laid.add {looks : Looks} {crumbs : Crumbs} (h : Laid looks crumbs) (name path : Path)
    (chip : Bool) : Laid looks (crumbs.add looks name path chip) := by
  unfold Crumbs.add
  split
  · exact h
  · refine ⟨?_, ?_, ?_⟩
    · refine List.pairwise_append.2 ⟨h.pairwise, List.pairwise_singleton _ _, fun s hs t ht => ?_⟩
      rw [List.mem_singleton.1 ht]
      exact h.behind s hs
    · intro s hs
      dsimp only at hs ⊢
      rcases List.mem_append.1 hs with hs | hs
      · have := h.behind s hs
        omega
      · rw [List.mem_singleton.1 hs]
        dsimp only
        omega
    · intro s hs
      dsimp only at hs
      rcases List.mem_append.1 hs with hs | hs
      · exact h.rect s hs
      · rw [List.mem_singleton.1 hs]
        refine ⟨rfl, rfl, ?_⟩
        dsimp only
        cases chip
        · exact Or.inl rfl
        · exact Or.inr rfl

/-- The segments of a path stand one behind another. -/
theorem layout_laid (looks : Looks) (path : Path) :
    ∃ crumbs, Laid looks crumbs ∧ crumbs.segments = layout looks path := by
  have hfold : ∀ (calls : List Crumb) (crumbs : Crumbs), Laid looks crumbs →
      Laid looks (calls.foldl (fun crumbs c => crumbs.add looks c.name c.path c.chip) crumbs) := by
    intro calls
    induction calls with
    | nil => exact fun crumbs h => h
    | cons c calls ih => exact fun crumbs h => ih _ (h.add c.name c.path c.chip)
  refine ⟨_, ?_, rfl⟩
  rw [layoutFrom_eq]
  refine hfold _ _ (Laid.add ⟨List.Pairwise.nil, ?_, ?_⟩ _ _ _)
  · exact fun s hs => absurd hs List.not_mem_nil
  · exact fun s hs => absurd hs List.not_mem_nil

section Clicking

variable [Ui]

/-- Rectangles are half-open. -/
def HalfOpen (contains : Rect → ℤ → ℤ → Bool) : Prop := ∀ r x y, contains r x y = true ↔
  r.x ≤ x ∧ x < r.x + r.width ∧ r.y ≤ y ∧ y < r.y + r.height

/-- No point lies in two segments. -/
theorem segment_unique (hopen : HalfOpen Rect.contains) {looks : Looks} {path : Path} {x y : ℤ}
    {i j : ℕ} (hi : i < (layout looks path).length) (hj : j < (layout looks path).length)
    (hxi : (layout looks path)[i].rect.contains x y = true)
    (hxj : (layout looks path)[j].rect.contains x y = true) : i = j := by
  obtain ⟨crumbs, hlaid, heq⟩ := layout_laid looks path
  have hapart := List.pairwise_iff_getElem.1 (heq ▸ hlaid.pairwise)
  obtain ⟨h1, h2, -⟩ := (hopen _ _ _).1 hxi
  obtain ⟨h3, h4, -⟩ := (hopen _ _ _).1 hxj
  rcases Nat.lt_trichotomy i j with hlt | heq | hlt
  · have := hapart i j hi hj hlt
    omega
  · exact heq
  · have := hapart j i hj hi hlt
    omega

/-- A click on a segment opens its path, unless it is the last one. -/
theorem mouseDown_eq (hopen : HalfOpen Rect.contains) {looks : Looks} {path : Path} {x y : ℤ}
    {k : ℕ} (hk : k < (layout looks path).length)
    (hx : (layout looks path)[k].rect.contains x y = true) :
    mouseDown looks path true x y =
      if k + 1 < (layout looks path).length then some (layout looks path)[k].path else none := by
  unfold mouseDown
  rw [if_neg (by decide)]
  split
  · next hlast =>
    have hk' : k < (layout looks path).dropLast.length := by
      rw [List.length_dropLast]
      omega
    have hfind : (layout looks path).dropLast.find? (fun s => s.rect.contains x y) =
        some (layout looks path)[k] := by
      refine List.find?_eq_some_iff_getElem.2 ⟨hx, k, hk', List.getElem_dropLast _, ?_⟩
      intro j hj
      rw [List.getElem_dropLast, Bool.not_eq_true', Bool.eq_false_iff]
      exact fun hxj => absurd (segment_unique hopen (by omega) hk hxj hx) (by omega)
    rw [hfind]
    rfl
  · next hlast =>
    rw [List.find?_eq_none.2]
    · rfl
    · intro s hs hxs
      obtain ⟨j, hj, rfl⟩ := List.mem_iff_getElem.1 hs
      rw [List.length_dropLast] at hj
      rw [List.getElem_dropLast] at hxs
      exact absurd (segment_unique hopen (by omega) hk hxs hx) (by omega)

/-- For an absolute path in a buffer, the segments are those of the folders on the way exactly when
none of the first eleven components is cut; and a click on the segment of a folder above the path
opens that folder as well exactly when, besides, there are no more components. -/
theorem segments_clicks_iff (hopen : HalfOpen Rect.contains) {path : Path}
    (habsolute : path.head? = some slash) (hfits : Fits path) :
    (Segments path ↔
        ∀ c ∈ (components path).take (kMaxSegments - 1), c.length < nameCapacity) ∧
      (Segments path ∧ Clicks path ↔
        (∀ c ∈ components path, c.length < nameCapacity) ∧
          (components path).length < kMaxSegments) := by
  have hiff := segments_iff habsolute hfits
  refine ⟨hiff, ?_⟩
  have hlength : ∀ looks, Segments path →
      (layout looks path).length = min kMaxSegments ((components path).length + 1) := by
    intro looks h
    have := congrArg List.length (h.paths looks)
    rwa [List.length_map, List.length_take, List.length_map, List.length_inits] at this
  constructor
  · rintro ⟨hsegments, hclicks⟩
    have hroom : (components path).length < kMaxSegments := by
      by_contra hcon
      -- The last segment is that of a folder above the path and is not clicked.
      let looks : Looks := ⟨fun _ => 1, fun _ => 1, 0, 1⟩
      have hlen := hlength looks hsegments
      rw [Nat.min_eq_left (by omega)] at hlen
      have hlast : kMaxSegments - 1 < (layout looks path).length := by
        rw [hlen]
        decide
      have hx : (layout looks path)[kMaxSegments - 1].rect.contains
          (layout looks path)[kMaxSegments - 1].rect.x 0 = true := by
        obtain ⟨crumbs, hlaid, heq⟩ := layout_laid looks path
        obtain ⟨hy, hheight, hwidth⟩ := hlaid.rect _ (by rw [heq]; exact List.getElem_mem hlast)
        have hone : (layout looks path)[kMaxSegments - 1].rect.width = 1 := by
          rcases hwidth with hwidth | hwidth <;> exact hwidth
        refine (hopen _ _ _).2 ⟨le_refl _, ?_, ?_, ?_⟩
        · omega
        · omega
        · rw [hy, hheight]
          decide
      have hclick := hclicks looks _ 0 (kMaxSegments - 1) _ (by omega)
        (List.getElem?_eq_getElem hlast) hx
      rw [mouseDown_eq hopen hlast hx, if_neg (by rw [hlen]; decide)] at hclick
      cases hclick
    refine ⟨?_, hroom⟩
    have hnames := hiff.1 hsegments
    rwa [List.take_of_length_le (by omega)] at hnames
  · rintro ⟨hnames, hroom⟩
    have hsegments : Segments path := hiff.2 fun c hc => hnames c (List.mem_of_mem_take hc)
    refine ⟨hsegments, fun looks x y k s hk hs hx => ?_⟩
    have hlen := hlength looks hsegments
    rw [Nat.min_eq_right (by omega)] at hlen
    obtain ⟨hk', rfl⟩ := List.getElem?_eq_some_iff.1 hs
    rw [mouseDown_eq hopen hk' hx, if_pos (by omega)]
    have hpath := congrArg (·[k]?) (hsegments.paths looks)
    rw [List.getElem?_map, hs, List.getElem?_take_of_lt (by omega), List.getElem?_map,
      List.getElem?_eq_getElem (by rw [List.length_inits]; omega), List.getElem_inits] at hpath
    exact hpath

end Clicking

/-- Bytes that are 7 wide. -/
def plainLooks : Looks := ⟨fun text => 7 * text.length, fun text => 7 * text.length, 0, 28⟩

/-- A folder of the root with a name of 64 bytes. -/
def longName : Path := slash :: List.replicate 64 0x61

/-- The path `/aaa…` with a name of 64 bytes has a segment for the first 63 and one for the last, and
a click on the first of them opens a folder that is not on the way. -/
theorem longName_split :
    longName.head? = some slash ∧ Fits longName ∧ components longName = [List.replicate 64 0x61] ∧
      (layout plainLooks longName).map (·.path) =
        [[slash], slash :: List.replicate 63 0x61,
          slash :: List.replicate 63 0x61 ++ [slash, 0x61]] ∧
      @mouseDown Compositor.plainUi plainLooks longName true 37 0 =
        some (slash :: List.replicate 63 0x61) ∧
      ¬Segments longName := by
  have habsolute : longName.head? = some slash := rfl
  have hfits : Fits longName := by
    unfold Fits
    decide
  have hcomponents : components longName = [List.replicate 64 0x61] := by decide +kernel
  refine ⟨habsolute, hfits, hcomponents, by decide +kernel, by decide +kernel, ?_⟩
  rw [segments_iff habsolute hfits, hcomponents]
  decide

/-- The folder the program starts in is shown and can be clicked. -/
theorem segments_clicks_iff_bin :
    Fits startPath ∧ Segments startPath ∧ @Clicks Compositor.plainUi startPath := by
  have hfits : Fits startPath := by
    unfold Fits
    decide
  have hopen : HalfOpen (@Rect.contains Compositor.plainUi) := fun _ _ _ => decide_eq_true_iff
  have hiff := @segments_clicks_iff Compositor.plainUi hopen startPath rfl hfits
  exact ⟨hfits, hiff.2.2 (by decide +kernel)⟩

end IUserApps.FileBrowser
