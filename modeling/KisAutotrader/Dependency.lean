import Mathlib.Data.List.Nodup
import Mathlib.Data.List.Pairwise
import Mathlib.Data.List.Sort
import Mathlib.Data.String.Basic
import KisAutotrader.Grouping
import KisAutotrader.UnionFind

/-!
# Independent groups of proposals

Proposals that share a file, and those that name none, are put together by union-find. The groups are the
connected components of that relation, in an order that does not depend on the order of the proposals.
-/
namespace KisAutotrader.Dependency
open OrderedDict Grouping Relation

/-! ### The computation -/

structure Proposal where
  path : String
  files : Option (List String)
  deriving DecidableEq

/-- `p.get("files", [])`. -/
def Proposal.fileList (p : Proposal) : List String := p.files.getD []

abbrev Parent := ℕ → ℕ

def find : ℕ → Parent → ℕ → Option (Parent × ℕ) := UnionFind.find

def union : ℕ → Parent → ℕ → ℕ → Option Parent := UnionFind.union

def emptyIndices (proposals : List Proposal) : List ℕ :=
  (proposals.zipIdx.filter fun entry => entry.1.fileList = []).map Prod.snd

/-- The first proposal without files takes in the others. -/
def linkEmpty (fuel : ℕ) (parent : Parent) (proposals : List Proposal) : Option Parent :=
  match emptyIndices proposals with
  | [] => some parent
  | first::others => others.foldlM (fun parent i => union fuel parent first i) parent

structure Links where
  parent : Parent
  fileToIdx : Dict String ℕ

def linkFile (fuel i : ℕ) (s : Links) (f : String) : Option Links :=
  match s.fileToIdx.get? f with
  | some k => (union fuel s.parent k i).map fun parent => { s with parent }
  | none => some { s with fileToIdx := s.fileToIdx.set f i }

def linkFiles (fuel : ℕ) (s : Links) (proposals : List Proposal) : Option Links :=
  proposals.zipIdx.foldlM (fun s entry => entry.1.fileList.foldlM (linkFile fuel entry.2) s) s

/-- `groups.setdefault(root, []).append(p)`, with the root as it is found. -/
def gather (fuel : ℕ) (s : Parent × Dict ℕ (List Proposal)) (entry : Proposal × ℕ) :
    Option (Parent × Dict ℕ (List Proposal)) :=
  (find fuel s.1 entry.2).map fun found =>
    (found.1, s.2.set found.2 ((s.2.get? found.2).getD [] ++ [entry.1]))

def sortGroup (g : List Proposal) : List Proposal := g.insertionSort fun p q => p.path ≤ q.path

/-- `g[0]["path"]`: every group has a proposal. -/
def firstPath : List Proposal → String
  | [] => ""
  | p::_ => p.path

def sortGroups (groups : List (List Proposal)) : List (List Proposal) :=
  (groups.map sortGroup).insertionSort fun g h => firstPath g ≤ firstPath h

def computeIndependentGroups (fuel : ℕ) (proposals : List Proposal) : Option (List (List Proposal)) :=
  if proposals = [] then some []
  else do
    let parent ← linkEmpty fuel id proposals
    let links ← linkFiles fuel ⟨parent, Dict.empty⟩ proposals
    let (_, groups) ← proposals.zipIdx.foldlM (gather fuel) (links.parent, Dict.empty)
    some (sortGroups (groups.items.map Prod.snd))

/-! ### The components -/

/-- Two proposals share a file, or both have none. -/
def Touches (p q : Proposal) : Prop :=
  (∃ f ∈ p.fileList, f ∈ q.fileList) ∨ (p.fileList = [] ∧ q.fileList = [])

/-- A chain of proposals leads from one to the other. -/
def Linked (proposals : List Proposal) : Proposal → Proposal → Prop :=
  EqvGen fun p q => p ∈ proposals ∧ q ∈ proposals ∧ Touches p q

/-- Each proposal is in one group, with exactly those that are linked to it. -/
structure Components (proposals : List Proposal) (groups : List (List Proposal)) : Prop where
  once : groups.flatten.Perm proposals
  nonempty : [] ∉ groups
  together : ∀ p ∈ proposals, ∀ q ∈ proposals,
    (∃ g ∈ groups, p ∈ g ∧ q ∈ g) ↔ Linked proposals p q

/-- By their paths the proposals are in order in the groups, and the groups by the first ones. -/
structure Ordered (groups : List (List Proposal)) : Prop where
  inside : ∀ g ∈ groups, g.Pairwise fun p q => p.path ≤ q.path
  outside : groups.Pairwise fun g h => firstPath g ≤ firstPath h

section Orders
variable {ps qs : List Proposal} {gs hs : List (List Proposal)} {g h : List Proposal} {p q : Proposal}

theorem linked_perm (hperm : qs.Perm ps) : Linked qs = Linked ps := by
  simp only [Linked, hperm.mem_iff]

theorem Components.of_perm (hperm : qs.Perm ps) (hgs : Components qs gs) : Components ps gs where
  once := hgs.once.trans hperm
  nonempty := hgs.nonempty
  together p hp q hq := by
    rw [hgs.together p (hperm.mem_iff.mpr hp) q (hperm.mem_iff.mpr hq), linked_perm hperm]

namespace Components

theorem flatten_nodup (hgs : Components ps gs) (hps : ps.Nodup) : gs.flatten.Nodup :=
  hgs.once.nodup_iff.mpr hps

theorem mem_proposals (hgs : Components ps gs) (hg : g ∈ gs) (hp : p ∈ g) : p ∈ ps :=
  hgs.once.mem_iff.mp (List.mem_flatten.mpr ⟨g, hg, hp⟩)

theorem group_unique (hgs : Components ps gs) (hps : ps.Nodup) (hg : g ∈ gs) (hh : h ∈ gs) (hpg : p ∈ g)
    (hph : p ∈ h) : g = h := by
  have hdisjoint := (List.nodup_flatten.mp (hgs.flatten_nodup hps)).2
  have hsymm : Std.Symm (List.Disjoint (α := Proposal)) := ⟨fun _ _ hgh => hgh.symm⟩
  by_contra hne
  exact hdisjoint.forall hg hh hne hpg hph

theorem mem_group_iff (hgs : Components ps gs) (hps : ps.Nodup) (hg : g ∈ gs) (hp : p ∈ g) :
    q ∈ g ↔ q ∈ ps ∧ Linked ps p q := by
  have hpps := hgs.mem_proposals hg hp
  constructor
  · intro hq
    have hqps := hgs.mem_proposals hg hq
    exact ⟨hqps, (hgs.together p hpps q hqps).mp ⟨g, hg, hp, hq⟩⟩
  · rintro ⟨hqps, hlinked⟩
    obtain ⟨h, hh, hph, hqh⟩ := (hgs.together p hpps q hqps).mpr hlinked
    rwa [hgs.group_unique hps hg hh hp hph]

theorem exists_mem (hgs : Components ps gs) (hg : g ∈ gs) : ∃ p, p ∈ g :=
  List.exists_mem_of_ne_nil g fun hnil => hgs.nonempty (hnil ▸ hg)

theorem groups_nodup (hgs : Components ps gs) (hps : ps.Nodup) : gs.Nodup := by
  have hdisjoint := (List.nodup_flatten.mp (hgs.flatten_nodup hps)).2
  refine hdisjoint.imp_of_mem fun hg _ hgh => ?_
  rintro rfl
  obtain ⟨p, hp⟩ := hgs.exists_mem hg
  exact hgh hp hp

/-- Proposals of different groups share no file. -/
theorem apart (hgs : Components ps gs) (hps : ps.Nodup) :
    gs.Pairwise fun g h => ∀ p ∈ g, ∀ q ∈ h, p.fileList.Disjoint q.fileList := by
  have hdisjoint := (List.nodup_flatten.mp (hgs.flatten_nodup hps)).2
  refine hdisjoint.imp_of_mem fun hg hh hgh p hp q hq f hfp hfq => hgh (a := q) ?_ hq
  have hqps := hgs.mem_proposals hh hq
  exact (hgs.mem_group_iff hps hg hp).mpr
    ⟨hqps, EqvGen.rel _ _ ⟨hgs.mem_proposals hg hp, hqps, Or.inl ⟨f, hfp, hfq⟩⟩⟩

/-- A group of one list of components is one of every other. -/
theorem group_mem (hgs : Components ps gs) (hhs : Components ps hs) (hgo : Ordered gs) (hho : Ordered hs)
    (hpaths : (ps.map Proposal.path).Nodup) (hg : g ∈ gs) : g ∈ hs := by
  have hps : ps.Nodup := hpaths.of_map
  obtain ⟨p, hp⟩ := hgs.exists_mem hg
  obtain ⟨h, hh, hph⟩ := List.mem_flatten.mp (hhs.once.mem_iff.mpr (hgs.mem_proposals hg hp))
  have hgnodup := (List.nodup_flatten.mp (hgs.flatten_nodup hps)).1 g hg
  have hhnodup := (List.nodup_flatten.mp (hhs.flatten_nodup hps)).1 h hh
  have hperm : g.Perm h := (List.perm_ext_iff_of_nodup hgnodup hhnodup).mpr fun q => by
    rw [hgs.mem_group_iff hps hg hp, hhs.mem_group_iff hps hh hph]
  have hsame : g = h := hperm.eq_of_pairwise (fun q r hq hr hqr hrq =>
    List.inj_on_of_nodup_map hpaths (hgs.mem_proposals hg hq) (hhs.mem_proposals hh hr)
      (le_antisymm hqr hrq)) (hgo.inside g hg) (hho.inside h hh)
  rwa [hsame]

/-- The components are determined, with their order. -/
theorem unique (hgs : Components ps gs) (hhs : Components ps hs) (hgo : Ordered gs) (hho : Ordered hs)
    (hpaths : (ps.map Proposal.path).Nodup) : gs = hs := by
  have hps : ps.Nodup := hpaths.of_map
  have hmem : ∀ g, g ∈ gs ↔ g ∈ hs := fun g =>
    ⟨hgs.group_mem hhs hgo hho hpaths, hhs.group_mem hgs hho hgo hpaths⟩
  have hperm := (List.perm_ext_iff_of_nodup (hgs.groups_nodup hps) (hhs.groups_nodup hps)).mpr hmem
  refine hperm.eq_of_pairwise (fun g h hg hh hgh hhg => ?_) hgo.outside hho.outside
  have hh := (hmem h).mpr hh
  cases g with
  | nil => exact absurd hg hgs.nonempty
  | cons p g =>
    cases h with
    | nil => exact absurd hh hgs.nonempty
    | cons q h =>
      have hpq : p = q := List.inj_on_of_nodup_map hpaths (hgs.mem_proposals hg List.mem_cons_self)
        (hgs.mem_proposals hh List.mem_cons_self) (le_antisymm hgh hhg)
      exact hgs.group_unique hps hg hh List.mem_cons_self (hpq ▸ List.mem_cons_self)

end Components

end Orders

/-! ### The pairs that are put together -/

def emptyPairs (proposals : List Proposal) : List (ℕ × ℕ) :=
  match emptyIndices proposals with
  | [] => []
  | first::others => others.map fun i => (first, i)

/-- The files of all proposals, each with the index of its proposal. -/
def entries (indexed : List (Proposal × ℕ)) : List (ℕ × String) :=
  indexed.flatMap fun entry => entry.1.fileList.map fun f => (entry.2, f)

def filePairs : Dict String ℕ → List (ℕ × String) → List (ℕ × ℕ)
  | _, [] => []
  | d, (i, f)::es =>
      match d.get? f with
      | some k => (k, i)::filePairs d es
      | none => filePairs (d.set f i) es

def pairs (proposals : List Proposal) : List (ℕ × ℕ) :=
  emptyPairs proposals ++ filePairs Dict.empty (entries proposals.zipIdx)

section Pairs
variable {fuel i j : ℕ} {f : String} {d : Dict String ℕ} {es : List (ℕ × String)} {ps : List Proposal}
  {p q : Proposal}

theorem linkEmpty_eq (fuel : ℕ) (parent : Parent) (ps : List Proposal) :
    linkEmpty fuel parent ps = UnionFind.unionAll fuel parent (emptyPairs ps) := by
  unfold linkEmpty emptyPairs
  cases emptyIndices ps with
  | nil => rfl
  | cons first others =>
    simp only [UnionFind.unionAll, List.foldlM_map]
    rfl

theorem linkEntries_eq (fuel : ℕ) (s : Links) (es : List (ℕ × String)) :
    (es.foldlM (fun s e => linkFile fuel e.1 s e.2) s).map Links.parent =
      UnionFind.unionAll fuel s.parent (filePairs s.fileToIdx es) := by
  induction es generalizing s with
  | nil => rfl
  | cons e es ih =>
    rw [List.foldlM_cons, linkFile, filePairs]
    cases s.fileToIdx.get? e.2 with
    | none => exact ih _
    | some k =>
      simp only [UnionFind.unionAll, List.foldlM_cons, union]
      cases UnionFind.union fuel s.parent k e.1 with
      | none => rfl
      | some parent => exact ih _

theorem linkFiles_eq (fuel : ℕ) (s : Links) (indexed : List (Proposal × ℕ)) :
    indexed.foldlM (fun s entry => entry.1.fileList.foldlM (linkFile fuel entry.2) s) s =
      (entries indexed).foldlM (fun s e => linkFile fuel e.1 s e.2) s := by
  induction indexed generalizing s with
  | nil => rfl
  | cons entry indexed ih =>
    simp only [List.foldlM_cons, ih, entries, List.flatMap_cons, List.foldlM_append, List.foldlM_map]

/-- The two loops are one list of unions. -/
theorem links_eq (fuel : ℕ) (ps : List Proposal) :
    ((linkEmpty fuel id ps).bind fun parent =>
      (linkFiles fuel ⟨parent, Dict.empty⟩ ps).map Links.parent) =
        UnionFind.unionAll fuel id (pairs ps) := by
  have hsplit : UnionFind.unionAll fuel id (pairs ps) =
      (UnionFind.unionAll fuel id (emptyPairs ps)).bind fun parent =>
        UnionFind.unionAll fuel parent (filePairs Dict.empty (entries ps.zipIdx)) :=
    List.foldlM_append
  rw [linkEmpty_eq, hsplit]
  refine Option.bind_congr fun parent _ => ?_
  rw [linkFiles, linkFiles_eq, linkEntries_eq]

/-- A file that has an index links every later proposal to it. -/
theorem filePairs_indexed {k : ℕ} (hk : d.get? f = some k) (hi : (i, f) ∈ es) :
    EqvGen (fun u v => (u, v) ∈ filePairs d es) k i := by
  induction es generalizing d with
  | nil => simp at hi
  | cons e es ih =>
    obtain ⟨j, g⟩ := e
    rw [filePairs]
    by_cases hgf : g = f
    · subst hgf
      rw [hk]
      rcases List.mem_cons.mp hi with heq | hi
      · cases heq
        exact EqvGen.rel _ _ List.mem_cons_self
      · exact (ih hk hi).mono fun _ _ => List.mem_cons_of_mem _
    · have hi := (List.mem_cons.mp hi).resolve_left fun heq => hgf (congrArg Prod.snd heq).symm
      cases hg : d.get? g with
      | some l => exact (ih hk hi).mono fun _ _ => List.mem_cons_of_mem _
      | none => exact ih (by rw [Dict.get?_set_ne _ (Ne.symm hgf), hk]) hi

/-- The proposals of one file are linked. -/
theorem filePairs_shared (hi : (i, f) ∈ es) (hj : (j, f) ∈ es) :
    EqvGen (fun u v => (u, v) ∈ filePairs d es) i j := by
  induction es generalizing d with
  | nil => simp at hi
  | cons e es ih =>
    obtain ⟨l, g⟩ := e
    by_cases hgf : g = f
    · subst hgf
      rw [filePairs]
      cases hg : d.get? g with
      | some k =>
        have hall : ∀ {m}, (m, g) ∈ (l, g)::es → EqvGen (fun u v => (u, v) ∈ filePairs d ((l, g)::es)) k m :=
          fun hm => filePairs_indexed hg hm
        rw [filePairs, hg] at hall
        exact (hall hi).symm.trans _ _ _ (hall hj)
      | none =>
        have hall : ∀ {m}, (m, g) ∈ (l, g)::es → EqvGen (fun u v => (u, v) ∈ filePairs (d.set g l) es) l m := by
          intro m hm
          rcases List.mem_cons.mp hm with heq | hm
          · cases heq
            exact EqvGen.refl _
          · exact filePairs_indexed (Dict.get?_set_self ..) hm
        exact (hall hi).symm.trans _ _ _ (hall hj)
    · have hi := (List.mem_cons.mp hi).resolve_left fun heq => hgf (congrArg Prod.snd heq).symm
      have hj := (List.mem_cons.mp hj).resolve_left fun heq => hgf (congrArg Prod.snd heq).symm
      rw [filePairs]
      cases d.get? g with
      | some k => exact (ih hi hj).mono fun _ _ => List.mem_cons_of_mem _
      | none => exact ih hi hj

theorem filePairs_sound (h : (i, j) ∈ filePairs d es) :
    ∃ f, ((i, f) ∈ es ∨ d.get? f = some i) ∧ (j, f) ∈ es := by
  induction es generalizing d with
  | nil => simp [filePairs] at h
  | cons e es ih =>
    obtain ⟨l, g⟩ := e
    rw [filePairs] at h
    cases hg : d.get? g with
    | some k =>
      rw [hg] at h
      rcases List.mem_cons.mp h with heq | h
      · cases heq
        exact ⟨g, Or.inr hg, List.mem_cons_self⟩
      · obtain ⟨f, hfirst, hj⟩ := ih h
        exact ⟨f, hfirst.imp_left (List.mem_cons_of_mem _), List.mem_cons_of_mem _ hj⟩
    | none =>
      rw [hg] at h
      obtain ⟨f, hfirst, hj⟩ := ih h
      refine ⟨f, ?_, List.mem_cons_of_mem _ hj⟩
      rcases hfirst with hi | hset
      · exact Or.inl (List.mem_cons_of_mem _ hi)
      · rw [Dict.get?_set] at hset
        split_ifs at hset with hfg
        · cases hset
          exact Or.inl (hfg ▸ List.mem_cons_self)
        · exact Or.inr hset

theorem mem_entries : (i, f) ∈ entries ps.zipIdx ↔ ∃ p, ps[i]? = some p ∧ f ∈ p.fileList := by
  simp only [entries, List.mem_flatMap, List.mem_map, Prod.exists, Prod.mk.injEq]
  constructor
  · rintro ⟨p, j, hp, g, hg, rfl, rfl⟩
    exact ⟨p, List.mk_mem_zipIdx_iff_getElem?.mp hp, hg⟩
  · rintro ⟨p, hp, hf⟩
    exact ⟨p, i, List.mk_mem_zipIdx_iff_getElem?.mpr hp, f, hf, rfl, rfl⟩

theorem mem_emptyIndices : i ∈ emptyIndices ps ↔ ∃ p, ps[i]? = some p ∧ p.fileList = [] := by
  simp only [emptyIndices, List.mem_map, List.mem_filter, decide_eq_true_eq, Prod.exists]
  constructor
  · rintro ⟨p, j, ⟨hp, hnil⟩, rfl⟩
    exact ⟨p, List.mk_mem_zipIdx_iff_getElem?.mp hp, hnil⟩
  · rintro ⟨p, hp, hnil⟩
    exact ⟨p, i, ⟨List.mk_mem_zipIdx_iff_getElem?.mpr hp, hnil⟩, rfl⟩

theorem emptyPairs_sound (h : (i, j) ∈ emptyPairs ps) : i ∈ emptyIndices ps ∧ j ∈ emptyIndices ps := by
  unfold emptyPairs at h
  cases hindices : emptyIndices ps with
  | nil => simp [hindices] at h
  | cons first others =>
    simp only [hindices, List.mem_map, Prod.mk.injEq] at h
    obtain ⟨k, hk, rfl, rfl⟩ := h
    exact ⟨List.mem_cons_self, List.mem_cons_of_mem _ hk⟩

theorem emptyPairs_linked (hi : i ∈ emptyIndices ps) (hj : j ∈ emptyIndices ps) :
    EqvGen (fun u v => (u, v) ∈ emptyPairs ps) i j := by
  unfold emptyPairs
  cases hindices : emptyIndices ps with
  | nil => simp [hindices] at hi
  | cons first others =>
    rw [hindices] at hi hj
    have hall : ∀ {m}, m ∈ first::others →
        EqvGen (fun u v => (u, v) ∈ others.map fun i => (first, i)) first m := by
      intro m hm
      rcases List.mem_cons.mp hm with rfl | hm
      · exact EqvGen.refl _
      · exact EqvGen.rel _ _ (List.mem_map_of_mem hm)
    exact (hall hi).symm.trans _ _ _ (hall hj)

/-- The proposals of a pair touch. -/
theorem pairs_touch (h : (i, j) ∈ pairs ps) : ∃ p q, ps[i]? = some p ∧ ps[j]? = some q ∧ Touches p q := by
  rcases List.mem_append.mp h with hempty | hfile
  · obtain ⟨hi, hj⟩ := emptyPairs_sound hempty
    obtain ⟨p, hp, hpnil⟩ := mem_emptyIndices.mp hi
    obtain ⟨q, hq, hqnil⟩ := mem_emptyIndices.mp hj
    exact ⟨p, q, hp, hq, Or.inr ⟨hpnil, hqnil⟩⟩
  · obtain ⟨f, hi, hj⟩ := filePairs_sound hfile
    obtain ⟨p, hp, hfp⟩ := mem_entries.mp (hi.resolve_right (by simp))
    obtain ⟨q, hq, hfq⟩ := mem_entries.mp hj
    exact ⟨p, q, hp, hq, Or.inl ⟨f, hfp, hfq⟩⟩

/-- The pairs connect the indices of proposals that touch. -/
theorem touch_pairs (hp : ps[i]? = some p) (hq : ps[j]? = some q) (h : Touches p q) :
    EqvGen (fun u v => (u, v) ∈ pairs ps) i j := by
  rcases h with ⟨f, hfp, hfq⟩ | ⟨hpnil, hqnil⟩
  · have hshared := filePairs_shared (d := Dict.empty) (mem_entries.mpr ⟨p, hp, hfp⟩)
      (mem_entries.mpr ⟨q, hq, hfq⟩)
    exact hshared.mono fun _ _ => List.mem_append_right _
  · have hempty := emptyPairs_linked (mem_emptyIndices.mpr ⟨p, hp, hpnil⟩)
      (mem_emptyIndices.mpr ⟨q, hq, hqnil⟩)
    exact hempty.mono fun _ _ => List.mem_append_left _

theorem idxOf_eq (hps : ps.Nodup) (hp : ps[i]? = some p) : ps.idxOf p = i := by
  obtain ⟨hi, rfl⟩ := List.getElem?_eq_some_iff.mp hp
  exact hps.idxOf_getElem i hi

/-- The pairs connect two indices exactly when their proposals are linked. -/
theorem pairs_iff (hps : ps.Nodup) (hp : ps[i]? = some p) (hq : ps[j]? = some q) :
    EqvGen (fun u v => (u, v) ∈ pairs ps) i j ↔ Linked ps p q := by
  constructor
  · intro hpath
    have hstep : ∀ u v, (u, v) ∈ pairs ps → Linked ps (ps.getD u ⟨"", none⟩) (ps.getD v ⟨"", none⟩) := by
      intro u v huv
      obtain ⟨p, q, hp, hq, htouch⟩ := pairs_touch huv
      simp only [List.getD_eq_getElem?_getD, hp, hq, Option.getD_some]
      exact EqvGen.rel _ _ ⟨List.mem_of_getElem? hp, List.mem_of_getElem? hq, htouch⟩
    have hlinked : Linked ps (ps.getD i ⟨"", none⟩) (ps.getD j ⟨"", none⟩) :=
      UnionFind.eqvGen_map (fun u => ps.getD u ⟨"", none⟩) hstep hpath
    simp only [List.getD_eq_getElem?_getD, hp, hq, Option.getD_some] at hlinked
    exact hlinked
  · intro hlinked
    have hstep : ∀ p q, p ∈ ps ∧ q ∈ ps ∧ Touches p q →
        EqvGen (fun u v => (u, v) ∈ pairs ps) (ps.idxOf p) (ps.idxOf q) :=
      fun p q h => touch_pairs (List.getElem?_idxOf h.1) (List.getElem?_idxOf h.2.1) h.2.2
    have hpath := UnionFind.eqvGen_map ps.idxOf hstep hlinked
    rwa [idxOf_eq hps hp, idxOf_eq hps hq] at hpath

theorem length_filePairs_le (d : Dict String ℕ) (es : List (ℕ × String)) :
    (filePairs d es).length ≤ es.length := by
  induction es generalizing d with
  | nil => exact Nat.le_refl 0
  | cons e es ih =>
    rw [filePairs]
    cases d.get? e.2 with
    | some k => simpa using ih d
    | none => exact (ih _).trans (Nat.le_succ _)

/-- As many unions as there are proposals and files. -/
theorem length_pairs_le (ps : List Proposal) :
    (pairs ps).length ≤ ps.length + (ps.flatMap Proposal.fileList).length := by
  have hempty : (emptyPairs ps).length ≤ ps.length := by
    have hindices : (emptyIndices ps).length ≤ ps.length := by
      rw [emptyIndices, List.length_map]
      exact (List.length_filter_le ..).trans (by rw [List.length_zipIdx])
    unfold emptyPairs
    cases h : emptyIndices ps with
    | nil => exact Nat.zero_le _
    | cons first others =>
      rw [h, List.length_cons] at hindices
      rw [List.length_map]
      omega
  have hentries : (entries ps.zipIdx).length = (ps.flatMap Proposal.fileList).length := by
    have hproposals : ps = ps.zipIdx.map Prod.fst := by simp
    conv_rhs => rw [hproposals]
    simp only [entries, List.length_flatMap, List.length_map, List.map_map, Function.comp_def]
  have hfiles := length_filePairs_le Dict.empty (entries ps.zipIdx)
  rw [pairs, List.length_append]
  omega

end Pairs

/-! ### The groups -/

def grouped (root : ℕ → ℕ) (indexed : List (Proposal × ℕ)) (d : Dict ℕ (List Proposal)) :
    Dict ℕ (List Proposal) :=
  indexed.foldl (absorb (fun entry => root entry.2) (fun entry => [entry.1])
    fun g entry => g ++ [entry.1]) d

section Groups
variable {parent root : Parent} {height : ℕ → ℕ} {bound fuel r i : ℕ} {ps g : List Proposal}
  {gs : List (List Proposal)} {p : Proposal}

/-- Finding the roots changes parents, but no root. -/
theorem gather_eq (h : UnionFind.Forest parent root height) (hbound : ∀ y, height y ≤ bound)
    (hfuel : bound ≤ fuel) (indexed : List (Proposal × ℕ)) (d : Dict ℕ (List Proposal)) :
    ∃ halved, indexed.foldlM (gather fuel) (parent, d) = some (halved, grouped root indexed d) := by
  induction indexed generalizing parent d with
  | nil => exact ⟨parent, rfl⟩
  | cons entry indexed ih =>
    obtain ⟨next, hfind, hforest⟩ := h.find_eq (x := entry.2) ((hbound _).trans hfuel)
    have habsorb : d.set (root entry.2) ((d.get? (root entry.2)).getD [] ++ [entry.1]) =
        absorb (fun entry => root entry.2) (fun entry => [entry.1]) (fun g entry => g ++ [entry.1]) d
          entry := by
      unfold absorb
      cases d.get? (root entry.2) <;> rfl
    obtain ⟨halved, hrest⟩ := ih hforest (d.set (root entry.2) ((d.get? (root entry.2)).getD [] ++ [entry.1]))
    refine ⟨halved, ?_⟩
    rw [List.foldlM_cons, gather, find, hfind]
    simp only [Option.map_some]
    refine hrest.trans ?_
    rw [habsorb]
    rfl

theorem get?_grouped : (grouped root ps.zipIdx Dict.empty).get? r = some g ↔
    g ≠ [] ∧ g = (ps.zipIdx.filter fun entry => root entry.2 = r).map Prod.fst := by
  rw [grouped, get?_foldl_absorb]
  simp only [Dict.get?_empty, foldl_taken_append]
  split_ifs with hnil
  · simp [hnil]
  · rw [Option.some.injEq]
    constructor
    · rintro rfl
      exact ⟨List.map_eq_nil_iff.not.mpr hnil, rfl⟩
    · exact fun h => h.2.symm

theorem mem_grouped (hg : (grouped root ps.zipIdx Dict.empty).get? r = some g) :
    p ∈ g ↔ ∃ i, ps[i]? = some p ∧ root i = r := by
  rw [(get?_grouped.mp hg).2]
  simp only [List.mem_map, List.mem_filter, decide_eq_true_eq, Prod.exists]
  constructor
  · rintro ⟨q, i, ⟨hq, hroot⟩, rfl⟩
    exact ⟨i, List.mk_mem_zipIdx_iff_getElem?.mp hq, hroot⟩
  · rintro ⟨i, hp, hroot⟩
    exact ⟨p, i, ⟨List.mk_mem_zipIdx_iff_getElem?.mpr hp, hroot⟩, rfl⟩

theorem grouped_of_mem (root : ℕ → ℕ) (hp : ps[i]? = some p) :
    ∃ g, (grouped root ps.zipIdx Dict.empty).get? (root i) = some g ∧ p ∈ g := by
  have hmem : p ∈ (ps.zipIdx.filter fun entry => root entry.2 = root i).map Prod.fst :=
    List.mem_map.mpr ⟨(p, i), List.mem_filter.mpr
      ⟨List.mk_mem_zipIdx_iff_getElem?.mpr hp, decide_eq_true rfl⟩, rfl⟩
  exact ⟨_, get?_grouped.mpr ⟨List.ne_nil_of_mem hmem, rfl⟩, hmem⟩

theorem mem_groups : g ∈ (grouped root ps.zipIdx Dict.empty).items.map Prod.snd ↔
    ∃ r, (grouped root ps.zipIdx Dict.empty).get? r = some g := by
  simp only [List.mem_map, Prod.exists, exists_eq_right, Dict.mem_items]

theorem grouped_flatten_nodup (hps : ps.Nodup) :
    ((grouped root ps.zipIdx Dict.empty).items.map Prod.snd).flatten.Nodup := by
  rw [List.nodup_flatten]
  constructor
  · intro g hg
    obtain ⟨r, hr⟩ := mem_groups.mp hg
    rw [(get?_grouped.mp hr).2]
    have hsub := (List.filter_sublist (p := fun entry => root entry.2 = r) (l := ps.zipIdx)).map Prod.fst
    rw [List.zipIdx_map_fst] at hsub
    exact hps.sublist hsub
  · have hkeys := List.pairwise_map.mp (grouped root ps.zipIdx Dict.empty).nodup
    refine List.pairwise_map.mpr (hkeys.imp_of_mem fun {a b} ha hb hne p hpa hpb => hne ?_)
    obtain ⟨i, hi, hri⟩ := (mem_grouped (Dict.mem_items.mp ha)).mp hpa
    obtain ⟨j, hj, hrj⟩ := (mem_grouped (Dict.mem_items.mp hb)).mp hpb
    rw [← hri, ← hrj, ← idxOf_eq hps hi, ← idxOf_eq hps hj]

/-- Grouping by roots that tell the linked proposals. -/
theorem grouped_components (hps : ps.Nodup)
    (hroot : ∀ {i j p q}, ps[i]? = some p → ps[j]? = some q → (root i = root j ↔ Linked ps p q)) :
    Components ps ((grouped root ps.zipIdx Dict.empty).items.map Prod.snd) where
  once := by
    refine (List.perm_ext_iff_of_nodup (grouped_flatten_nodup hps) hps).mpr fun p => ?_
    simp only [List.mem_flatten, mem_groups]
    constructor
    · rintro ⟨g, ⟨r, hr⟩, hp⟩
      obtain ⟨i, hi, -⟩ := (mem_grouped hr).mp hp
      exact List.mem_of_getElem? hi
    · intro hp
      obtain ⟨g, hg, hpg⟩ := grouped_of_mem root (List.getElem?_idxOf hp)
      exact ⟨g, ⟨_, hg⟩, hpg⟩
  nonempty hnil := by
    obtain ⟨r, hr⟩ := mem_groups.mp hnil
    exact (get?_grouped.mp hr).1 rfl
  together p hp q hq := by
    have hpi := List.getElem?_idxOf hp
    have hqi := List.getElem?_idxOf hq
    rw [← hroot hpi hqi]
    constructor
    · rintro ⟨g, hg, hpg, hqg⟩
      obtain ⟨r, hr⟩ := mem_groups.mp hg
      obtain ⟨i, hi, hri⟩ := (mem_grouped hr).mp hpg
      obtain ⟨j, hj, hrj⟩ := (mem_grouped hr).mp hqg
      rw [idxOf_eq hps hi, idxOf_eq hps hj, hri, hrj]
    · intro hsame
      obtain ⟨g, hg, hpg⟩ := grouped_of_mem root hpi
      exact ⟨g, mem_groups.mpr ⟨_, hg⟩, hpg, (mem_grouped hg).mpr ⟨_, hqi, hsame.symm⟩⟩

theorem mem_sortGroups : g ∈ sortGroups gs ↔ ∃ h ∈ gs, sortGroup h = g := by
  rw [sortGroups, List.mem_insertionSort, List.mem_map]

theorem sortGroups_components (h : Components ps gs) : Components ps (sortGroups gs) where
  once := by
    have hsort : ∀ gs : List (List Proposal), (gs.map sortGroup).flatten.Perm gs.flatten := by
      intro gs
      induction gs with
      | nil => exact List.Perm.nil
      | cons g gs ih => exact (List.perm_insertionSort _ g).append ih
    exact ((List.perm_insertionSort _ _).flatten.trans (hsort gs)).trans h.once
  nonempty hnil := by
    obtain ⟨g, hg, hsorted⟩ := mem_sortGroups.mp hnil
    obtain ⟨p, hp⟩ := h.exists_mem hg
    have hp : p ∈ sortGroup g := (List.mem_insertionSort _).mpr hp
    simp [hsorted] at hp
  together p hp q hq := by
    rw [← h.together p hp q hq]
    constructor
    · rintro ⟨_, hsorted, hpg, hqg⟩
      obtain ⟨g, hg, rfl⟩ := mem_sortGroups.mp hsorted
      exact ⟨g, hg, (List.mem_insertionSort _).mp hpg, (List.mem_insertionSort _).mp hqg⟩
    · rintro ⟨g, hg, hpg, hqg⟩
      exact ⟨sortGroup g, mem_sortGroups.mpr ⟨g, hg, rfl⟩, (List.mem_insertionSort _).mpr hpg,
        (List.mem_insertionSort _).mpr hqg⟩

theorem sortGroups_ordered (gs : List (List Proposal)) : Ordered (sortGroups gs) where
  inside g hg := by
    obtain ⟨h, -, rfl⟩ := mem_sortGroups.mp hg
    exact List.pairwise_insertionSort _ h
  outside := List.pairwise_insertionSort _ _

end Groups

/-! ### The result -/

section Result
variable {fuel : ℕ} {ps : List Proposal}

/-- Rounds that are enough for every search of a root. -/
def rounds (ps : List Proposal) : ℕ := ps.length + (ps.flatMap Proposal.fileList).length

/-- The computation ends, with the components in order. -/
theorem computeIndependentGroups_components (hps : ps.Nodup) (hfuel : rounds ps ≤ fuel) :
    ∃ groups, computeIndependentGroups fuel ps = some groups ∧ Components ps groups ∧ Ordered groups := by
  unfold computeIndependentGroups
  split_ifs with hnil
  · subst hnil
    exact ⟨[], rfl, ⟨List.Perm.nil, List.not_mem_nil, fun p hp => absurd hp List.not_mem_nil⟩,
      ⟨fun g hg => absurd hg List.not_mem_nil, List.Pairwise.nil⟩⟩
  · have hpairs := (length_pairs_le ps).trans hfuel
    obtain ⟨joined, top, rank, hall, hforest, hrank, htop⟩ := UnionFind.unionAll_id (pairs ps) hpairs
    rw [← links_eq] at hall
    obtain ⟨parent, hempty, hlinks⟩ := Option.bind_eq_some_iff.mp hall
    obtain ⟨links, hlinks, hjoined⟩ := Option.map_eq_some_iff.mp hlinks
    obtain ⟨halved, hgather⟩ := gather_eq hforest hrank hpairs ps.zipIdx Dict.empty
    refine ⟨sortGroups ((grouped top ps.zipIdx Dict.empty).items.map Prod.snd), ?_, ?_, sortGroups_ordered _⟩
    · rw [hempty, Option.bind_eq_bind, Option.bind_some, hlinks]
      simp only [Option.bind_eq_bind, Option.bind_some, hjoined, hgather]
    · exact sortGroups_components (grouped_components hps fun hi hj => (htop _ _).trans (pairs_iff hps hi hj))

/-- For every order of the proposals the groups are the same connected components, and no two of them
share a file. -/
theorem independent_groups (hpaths : (ps.map Proposal.path).Nodup) :
    ∃ groups, Components ps groups ∧
      (groups.Pairwise fun g h => ∀ p ∈ g, ∀ q ∈ h, p.fileList.Disjoint q.fileList) ∧
      ∀ qs, qs.Perm ps → ∀ fuel, rounds qs ≤ fuel → computeIndependentGroups fuel qs = some groups := by
  have hps : ps.Nodup := hpaths.of_map
  obtain ⟨groups, -, hgroups, hordered⟩ := computeIndependentGroups_components hps le_rfl
  refine ⟨groups, hgroups, hgroups.apart hps, fun qs hperm fuel hfuel => ?_⟩
  obtain ⟨found, hfound, hcomponents, hfoundOrdered⟩ :=
    computeIndependentGroups_components (hperm.nodup_iff.mpr hps) hfuel
  rw [hfound, (hcomponents.of_perm hperm).unique hgroups hfoundOrdered hordered hpaths]

end Result

def queue : List Proposal :=
  [⟨"d.md", some ["src/z.py"]⟩, ⟨"c.md", none⟩, ⟨"b.md", some ["src/y.py", "src/x.py"]⟩, ⟨"e.md", some []⟩,
    ⟨"a.md", some ["src/x.py"]⟩]

theorem independent_groups_queue : ∃ groups, Components queue groups ∧
    (groups.Pairwise fun g h => ∀ p ∈ g, ∀ q ∈ h, p.fileList.Disjoint q.fileList) ∧
    ∀ qs, qs.Perm queue → ∀ fuel, rounds qs ≤ fuel → computeIndependentGroups fuel qs = some groups :=
  independent_groups (by decide)

example : (computeIndependentGroups 9 queue).map (List.map (List.map Proposal.path)) =
    some [["a.md", "b.md"], ["c.md", "e.md"], ["d.md"]] := by
  decide +kernel

end KisAutotrader.Dependency
