import NopCore.Demo.BoardShell
import NopCore.Demo.FakeShell

/-!
# Directories of the two shells

The system of the board walks through its directories, from one name of a path to the next.
The other shell reads a path without a look at the directories, and looks for the text of what
it has read among those that there are. It reads a path from a directory below the root with
an empty name in front of the others. That name is lost only when the path goes up from the
root.
-/

namespace NopCore

namespace Shell

open Path Text

/-- The directories on the board. -/
def boardDirs : List Dir :=
  [[], [ascii ['d', 'e', 'v']], [ascii ['p', 'r', 'o', 'c']], [ascii ['s', 'y', 's']],
    [ascii ['t', 'm', 'p']]]

/-- A directory as a text. -/
def pathText (d : Dir) : Bytes :=
  if d ≠ [] then [slash] ++ [slash].intercalate d else [slash]

def segment (seg : Bytes) : Segment Bytes :=
  if seg = [] ∨ seg = ascii ['.'] then .stay
  else if seg = ascii ['.', '.'] then .up
  else .name seg

def segments (path : Bytes) : List (Segment Bytes) := (path.splitOn slash).map segment

/-- Where a path begins. -/
def origin (d : Dir) (path : Bytes) : Dir := if path.head? = some slash then [] else d

/-- The system has the directories and no other ones, and is called by its name. -/
structure Kernel.Serves (k : Kernel) : Prop where
  chdir : ∀ d ∈ boardDirs, ∀ path, k.chdir d path =
    if path = [] then none else walk (· ∈ boardDirs) (origin d path) (segments path)
  getcwd : ∀ d ∈ boardDirs, k.getcwd d = some (pathText d)
  uname : k.uname.length = 390
  sysname : k.uname.take 65 = ascii ['L', 'i', 'n', 'u', 'x'] ++ List.replicate 60 0

/-- Every directory on the way of a path is there. -/
def Reaches (d : Dir) (path : Bytes) : Prop :=
  Passable (· ∈ boardDirs) (origin d path) (segments path)

/-- Where a path leads as it is read. -/
def lead (d : Dir) (path : Bytes) : Dir := reading (origin d path) (segments path)

/-- A path leads to the root, or to a directory and begins at the root or goes up from it. -/
def Finds (d : Dir) (path : Bytes) : Prop :=
  lead d path = [] ∨
    lead d path ∈ boardDirs ∧ (origin d path = [] ∨ Climbs (origin d path) (segments path))

instance (d : Dir) (path : Bytes) : Decidable (Reaches d path) :=
  inferInstanceAs (Decidable (Passable _ _ _))

instance (d : Dir) (path : Bytes) : Decidable (Finds d path) :=
  inferInstanceAs (Decidable (_ ∨ _ ∧ (_ ∨ _)))

variable {d : Dir} {path : Bytes}

theorem fakeDirs_eq : FakeShell.fakeDirs = boardDirs.map pathText := by decide

theorem origin_mem (hd : d ∈ boardDirs) (path : Bytes) : origin d path ∈ boardDirs := by
  rw [origin]
  split_ifs
  · exact List.mem_cons_self
  · exact hd

theorem Reaches.mem (h : Reaches d path) : lead d path ∈ boardDirs := h.isDir_reading

theorem Kernel.Serves.chdir_eq {k : Kernel} (hk : k.Serves) (hd : d ∈ boardDirs)
    (hpath : path ≠ []) :
    k.chdir d path = if Reaches d path then some (lead d path) else none := by
  have hparent : ∀ d ∈ boardDirs, d.dropLast ∈ boardDirs := by decide
  rw [hk.chdir d hd, if_neg hpath]
  exact walk_eq hparent (origin_mem hd path)

/-! ## Texts -/

/-- A name without a slash in it. -/
def Clean (d : Dir) : Prop := ∀ a ∈ d, a ≠ [] ∧ slash ∉ a

instance : DecidablePred Clean := fun d => List.decidableBAll _ d

theorem clean_of_mem : ∀ d ∈ boardDirs, Clean d := by decide

theorem not_mem_of_mem_splitOn {a : Bytes} (ha : a ∈ path.splitOn slash) : slash ∉ a := by
  induction path generalizing a with
  | nil =>
    rw [List.splitOn_nil, List.mem_singleton] at ha
    rw [ha]
    exact List.not_mem_nil
  | cons c path ih =>
    rw [List.splitOn_cons_eq_if_modifyHead] at ha
    split_ifs at ha with hc
    · rcases List.mem_cons.mp ha with rfl | hmem
      · exact List.not_mem_nil
      · exact ih hmem
    · obtain ⟨first, rest, hsplit⟩ := List.exists_cons_of_ne_nil (List.splitOn_ne_nil slash path)
      rw [hsplit, List.modifyHead_cons] at ha
      rw [hsplit] at ih
      rcases List.mem_cons.mp ha with rfl | hmem
      · rw [List.mem_cons, not_or]
        exact ⟨fun heq => hc (by simp [heq]), ih List.mem_cons_self⟩
      · exact ih (List.mem_cons_of_mem first hmem)

theorem clean_lead (hd : d ∈ boardDirs) : Clean (lead d path) := by
  intro a ha
  rcases mem_reading ha with horigin | hname
  · exact clean_of_mem _ (origin_mem hd path) a horigin
  · obtain ⟨seg, hseg, heq⟩ := List.mem_map.mp hname
    rw [segment] at heq
    split_ifs at heq with hstay hup
    obtain rfl := Segment.name.inj heq
    exact ⟨fun hnil => hstay (.inl hnil), not_mem_of_mem_splitOn hseg⟩

/-- A directory is known from its text. -/
theorem pathText_inj {d d' : Dir} (hd : Clean d) (hd' : Clean d') (h : pathText d = pathText d') :
    d = d' := by
  have hsplit {d : Dir} (hd : Clean d) (hne : d ≠ []) :
      ([slash].intercalate d).splitOn slash = d :=
    List.splitOn_intercalate slash (fun a ha => (hd a ha).2) hne
  have hnil {d : Dir} (hd : Clean d) (hne : d ≠ []) : [slash].intercalate d ≠ [] := by
    intro hempty
    have heq := hsplit hd hne
    rw [hempty, List.splitOn_nil] at heq
    exact (hd [] (by rw [← heq]; exact List.mem_cons_self)).1 rfl
  rw [pathText, pathText] at h
  split_ifs at h with hne hne' hne'
  · rw [List.append_cancel_left_eq] at h
    rw [← hsplit hd hne, h, hsplit hd' hne']
  · exact absurd (List.append_right_eq_self.mp h) (hnil hd hne)
  · exact absurd (List.self_eq_append_right.mp h) (hnil hd' hne')
  · rw [not_not.mp hne, not_not.mp hne']

theorem pathText_mem_iff (hd : Clean d) : pathText d ∈ FakeShell.fakeDirs ↔ d ∈ boardDirs := by
  rw [fakeDirs_eq, List.mem_map]
  constructor
  · rintro ⟨d', hd', heq⟩
    rw [← pathText_inj (clean_of_mem d' hd') hd heq]
    exact hd'
  · exact fun hmem => ⟨d, hmem, rfl⟩

/-- With an empty name in front, only the root has the text of a directory. -/
theorem pathText_cons_mem_iff : pathText ([] :: d) ∈ FakeShell.fakeDirs ↔ d = [] := by
  constructor
  · intro hmem
    by_contra hne
    have htwo : ∀ t ∈ FakeShell.fakeDirs, t[1]? ≠ some slash := by decide
    obtain ⟨a, rest, rfl⟩ := List.exists_cons_of_ne_nil hne
    exact htwo _ hmem rfl
  · rintro rfl
    decide

/-! ## What the stand-in reads -/

theorem foldl_push (stack : Dir) (path : Bytes) :
    (path.splitOn slash).foldl FakeShell.push stack = reading stack (segments path) := by
  rw [segments, reading, List.foldl_map]
  congr 1
  funext stack seg
  rw [FakeShell.push, segment]
  split_ifs with hstay hup hempty
  · rfl
  · rfl
  · rw [not_not.mp hempty]
    rfl
  · rfl

/-- The stack of a path begins with an empty name unless the path begins at the root. -/
theorem stack_eq : ∀ d ∈ boardDirs, (if pathText d ≠ [slash] then
    ((pathText d).rdropWhile (· = slash)).splitOn slash else []) =
      if d = [] then [] else [] :: d := by
  decide +kernel

theorem resolve_eq {f : FakeShell} (hd : d ∈ boardDirs) (hcwd : f.cwd = pathText d)
    (path : Bytes) :
    f.resolve path =
      pathText (if origin d path = [] ∨ Climbs (origin d path) (segments path) then lead d path
        else [] :: lead d path) := by
  have hstack : (if path.head? = some slash then ([] : Dir)
      else if f.cwd ≠ [slash] then (f.cwd.rdropWhile (· = slash)).splitOn slash else []) =
        if origin d path = [] then [] else [] :: origin d path := by
    rw [origin, hcwd]
    by_cases habs : path.head? = some slash
    · rw [if_pos habs, if_pos habs]
      rfl
    · rw [if_neg habs, if_neg habs]
      exact stack_eq d hd
  have hread : reading (if origin d path = [] then [] else [] :: origin d path) (segments path) =
      if origin d path = [] ∨ Climbs (origin d path) (segments path) then lead d path
      else [] :: lead d path := by
    rw [lead]
    by_cases hroot : origin d path = []
    · rw [if_pos hroot, if_pos (.inl hroot), hroot]
    · rw [if_neg hroot, reading_cons]
      simp only [hroot, false_or]
  rw [FakeShell.resolve, hstack]
  simp only [foldl_push]
  rw [hread]
  rfl

/-- What is read is a directory if and only if the path finds one, and it is the one that the
path leads to. -/
theorem resolve_mem_iff {f : FakeShell} (hd : d ∈ boardDirs) (hcwd : f.cwd = pathText d) :
    f.resolve path ∈ FakeShell.fakeDirs ↔ Finds d path := by
  rw [resolve_eq hd hcwd, Finds]
  split_ifs with hfar
  · rw [pathText_mem_iff (clean_lead hd)]
    constructor
    · exact fun hmem => .inr ⟨hmem, hfar⟩
    · rintro (hroot | ⟨hmem, _⟩)
      · rw [hroot]
        exact List.mem_cons_self
      · exact hmem
  · rw [pathText_cons_mem_iff]
    simp [hfar]

theorem resolve_of_finds {f : FakeShell} (hd : d ∈ boardDirs) (hcwd : f.cwd = pathText d)
    (hfinds : Finds d path) : f.resolve path = pathText (lead d path) := by
  rw [resolve_eq hd hcwd]
  split_ifs with hfar
  · rfl
  · rcases hfinds with hroot | ⟨_, hfar'⟩
    · rw [hroot]
      rfl
    · exact absurd hfar' hfar

end Shell

end NopCore
