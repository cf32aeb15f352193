import LiveBinding.Proofs.Resumption
import LiveBinding.Proofs.Strategies

namespace LiveBinding

namespace Fragment

/-- The scratch slots that a fragment loads, those of its points apart. -/
def loads : Fragment → List Nat
  | ops list => loadsOf list
  | append f g | nullGuard f g | shortCircuit _ f g | branch _ f g .. => loads f ++ loads g
  | flagTest _ | flagAssign .. | observe .. => []

theorem points_subset_writes (f : Fragment) : f.points.map SavePoint.loc ⊆ f.writes := by
  induction f with
  | ops | flagTest | flagAssign => simp [points]
  | observe => exact fun _ h ↦ h
  | append f g ih ih' | nullGuard f g ih ih' | shortCircuit _ f g ih ih' =>
    rw [points, List.map_append]
    exact List.append_subset.mpr ⟨fun _ h ↦ List.mem_append_left _ (ih h),
      fun _ h ↦ List.mem_append_right _ (ih' h)⟩
  | branch _ f g _ _ _ ih ih' =>
    rw [points, List.map_append]
    exact List.append_subset.mpr ⟨fun _ h ↦ List.mem_append_left _ (ih h),
      fun _ h ↦ List.mem_append_right _ (List.mem_append_right _ (ih' h))⟩

/-- A later fragment writes to no place that an earlier one touches. -/
def Before (f g : Fragment) : Prop := ∀ l ∈ f.touched, l ∉ g.writes

theorem sequential_concat {fs : List Fragment} (h : ∀ f ∈ fs, f.Sequential)
    (hp : fs.Pairwise Before) : (concat fs).Sequential := by
  induction fs with
  | nil => exact .inl rfl
  | cons f fs ih =>
    rw [List.pairwise_cons] at hp
    refine ⟨h f List.mem_cons_self, ih (fun g hg ↦ h g (List.mem_cons_of_mem _ hg)) hp.2, ?_⟩
    intro l hl hw
    have hw : l ∈ (concat fs).writes := hw
    rw [writes_concat, List.mem_flatMap] at hw
    obtain ⟨g, hg, hw⟩ := hw
    exact hp.1 g hg l hl hw

@[simp] theorem touched_concat (fs : List Fragment) : (concat fs).touched = fs.flatMap touched := by
  induction fs with
  | nil => rfl
  | cons f fs ih =>
    show f.touched ++ (concat fs).touched = _
    rw [ih, List.flatMap_cons]

@[simp] theorem loads_concat (fs : List Fragment) : (concat fs).loads = fs.flatMap loads := by
  induction fs with
  | nil => rfl
  | cons f fs ih =>
    show f.loads ++ (concat fs).loads = _
    rw [ih, List.flatMap_cons]

@[simp] theorem points_concat (fs : List Fragment) : (concat fs).points = fs.flatMap points := by
  induction fs with
  | nil => rfl
  | cons f fs ih =>
    show f.points ++ (concat fs).points = _
    rw [ih, List.flatMap_cons]

/-- Plain code keeps nothing in the storage. -/
theorem touched_of_isPlain {f : Fragment} (h : f.isPlain) : f.touched = [] ∧ f.points = [] := by
  induction f with
  | ops list =>
    simp only [isPlain, List.all_eq_true] at h
    have hnone (op : Op) (hop : op ∈ list) : (∀ n, op ≠ .storeScratch n) ∧ ∀ n, op ≠ .loadScratch n := by
      have := h op hop
      constructor <;> rintro n rfl <;> cases this
    refine ⟨?_, rfl⟩
    simp only [touched, locs, storesOf, loadsOf, List.map_eq_nil_iff, List.append_eq_nil_iff,
      List.filterMap_eq_nil_iff]
    constructor
    · intro op hop
      cases op <;> first | rfl | exact absurd rfl ((hnone _ hop).1 _)
    · intro op hop
      cases op <;> first | rfl | exact absurd rfl ((hnone _ hop).2 _)
  | append f g ih ih' | nullGuard f g ih ih' | shortCircuit op f g ih ih' =>
    simp only [isPlain, Bool.and_eq_true] at h
    have ht := ih h.1
    have ht' := ih' h.2
    simp only [touched, locs] at ht ht' ⊢
    rw [ht.1, ht'.1, points, ht.2, ht'.2]
    exact ⟨rfl, rfl⟩
  | flagTest | flagAssign | observe | branch => cases h

theorem loads_of_isPlain {f : Fragment} (h : f.isPlain) : f.loads = [] := by
  induction f with
  | ops list =>
    have ht := (touched_of_isPlain h).1
    simp only [touched, locs, List.map_append, List.append_eq_nil_iff, List.map_eq_nil_iff] at ht
    exact ht.2
  | append f g ih ih' | nullGuard f g ih ih' | shortCircuit op f g ih ih' =>
    simp only [isPlain, Bool.and_eq_true] at h
    rw [loads, ih h.1, ih' h.2, List.append_nil]
  | _ => cases h

theorem sequential_of_isPlain {f : Fragment} (h : f.isPlain) : f.Sequential := by
  induction f with
  | ops list => exact .inl (slots_of_isPlain h)
  | append f g ih ih' =>
    simp only [isPlain, Bool.and_eq_true] at h
    exact ⟨ih h.1, ih' h.2, by simp [(touched_of_isPlain h.1).1]⟩
  | nullGuard f g =>
    simp only [isPlain, Bool.and_eq_true] at h
    have hwrites {f : Fragment} (h : f.isPlain) : f.writes = [] :=
      List.subset_nil.mp ((touched_of_isPlain h).1 ▸ writes_subset_touched f)
    exact ⟨⟨(touched_of_isPlain h.1).2, (touched_of_isPlain h.2).2⟩, hwrites h.1, hwrites h.2⟩
  | shortCircuit op f g ih ih' =>
    simp only [isPlain, Bool.and_eq_true] at h
    exact ⟨ih h.1, ih' h.2, (touched_of_isPlain h.2).2, by simp [(touched_of_isPlain h.1).1]⟩
  | _ => cases h

end Fragment

open Fragment

/-- A place that was handed out between two states. -/
def Loc.Between (s t : Resumable) : Loc → Prop
  | .slot n => s.storage.scratch ≤ n ∧ n < t.storage.scratch
  | .flag n => s.storage.flags ≤ n ∧ n < t.storage.flags

theorem Loc.Between.mono {s t s' t' : Resumable} {l : Loc} (h : l.Between s t)
    (hs : s'.storage.scratch ≤ s.storage.scratch ∧ s'.storage.flags ≤ s.storage.flags)
    (ht : t.storage.scratch ≤ t'.storage.scratch ∧ t.storage.flags ≤ t'.storage.flags) :
    l.Between s' t' := by
  cases l <;> simp only [Loc.Between] at h ⊢ <;> omega

/-- What rendering a fragment takes from the state, and that its parts keep out of each other's
way. -/
structure Ordered (s : Resumable) (f : Fragment) (t : Resumable) : Prop extends Renders s f t where
  between : ∀ l ∈ f.touched, l.Between s t
  loads : f.loads ⊆ f.stores
  sequential : f.Sequential

namespace Ordered

variable {s t u : Resumable} {f g : Fragment}

theorem le (h : Renders s f t) :
    s.storage.scratch ≤ t.storage.scratch ∧ s.storage.flags ≤ t.storage.flags := by
  rw [h.nextSlot, h.nextFlag]
  exact ⟨Nat.le_add_right _ _, Nat.le_add_right _ _⟩

theorem before (hf : ∀ l ∈ f.touched, l.Between s t) (hg : ∀ l ∈ g.touched, l.Between t u) :
    f.Before g := by
  intro l hl hw
  have h := hf l hl
  have h' := hg l (writes_subset_touched g hw)
  cases l <;> simp only [Loc.Between] at h h' <;> omega

theorem plain (s : Resumable) (h : f.isPlain) : Ordered s f s where
  toRenders := .plain s h
  between := by simp [(touched_of_isPlain h).1]
  loads := by simp [loads_of_isPlain h]
  sequential := sequential_of_isPlain h

theorem append (h : Ordered s f t) (h' : Ordered t g u) : Ordered s (f ++ g) u where
  toRenders := h.toRenders.append h'.toRenders
  between l hl := by
    rcases List.mem_append.mp hl with hl | hl
    · exact (h.between l hl).mono ⟨Nat.le_refl _, Nat.le_refl _⟩ (le h'.toRenders)
    · exact (h'.between l hl).mono (le h.toRenders) ⟨Nat.le_refl _, Nat.le_refl _⟩
  loads := List.append_subset.mpr ⟨fun _ hn ↦ List.mem_append_left _ (h.loads hn),
    fun _ hn ↦ List.mem_append_right _ (h'.loads hn)⟩
  sequential := ⟨h.sequential, h'.sequential, before h.between h'.between⟩

theorem shortCircuit (op : BinaryOp) (h : Ordered s f t) (h' : Ordered t g u)
    (hg : g.points = []) : Ordered s (.shortCircuit op f g) u where
  toRenders := h.toRenders.shortCircuit op h'.toRenders
  between := (h.append h').between
  loads := (h.append h').loads
  sequential := ⟨h.sequential, h'.sequential, hg, before h.between h'.between⟩

theorem branch (op : BinaryOp) (h : Ordered s f t) (h' : Ordered (Layout.inside t) g u) :
    Ordered s (.branch op f g t.storage.flags t.storage.counters (Layout.childOf t u).allPoints)
      { u with enclosing := t.enclosing, points := t.points
               children := t.children ++ [Layout.childOf t u] } := by
  have hperm := Layout.perm_childOf h'.toLayout
  have hps (l : Loc) (hl : l ∈ (Layout.childOf t u).allPoints.map SavePoint.loc) : l ∈ g.writes :=
    points_subset_writes g ((hperm.map SavePoint.loc).subset hl)
  have hle := le h.toRenders
  have hle' : t.storage.scratch ≤ u.storage.scratch ∧ t.storage.flags + 1 ≤ u.storage.flags :=
    le h'.toRenders
  have hg (l : Loc) (hl : l ∈ g.touched) : l.Between t u ∧ l ≠ .flag t.storage.flags := by
    have hb := h'.between l hl
    cases l with
    | slot n => exact ⟨hb, nofun⟩
    | flag n =>
      have hb : t.storage.flags + 1 ≤ n ∧ n < u.storage.flags := hb
      refine ⟨⟨by omega, hb.2⟩, ?_⟩
      rintro ⟨⟩
      omega
  have hright (l : Loc) (hl : l ∈ .flag t.storage.flags ::
      (Layout.childOf t u).allPoints.map SavePoint.loc ++ g.touched) : l.Between t u := by
    simp only [List.cons_append, List.mem_cons, List.mem_append] at hl
    rcases hl with rfl | hl | hl
    · exact ⟨Nat.le_refl _, hle'.2⟩
    · exact (hg l (writes_subset_touched g (hps l hl))).1
    · exact (hg l hl).1
  have hdisjoint (l : Loc) (hl : l ∈ f.touched) : l ∉ .flag t.storage.flags ::
      (Layout.childOf t u).allPoints.map SavePoint.loc ++ g.touched := by
    intro hw
    have hb := h.between l hl
    have hb' := hright l hw
    cases l <;> simp only [Loc.Between] at hb hb' <;> omega
  have hle'' := Nat.le_of_succ_le hle'.2
  refine ⟨h.toRenders.branch op h'.toRenders, fun l hl ↦ ?_, ?_, h.sequential, h'.sequential,
    hperm, fun l hl hw ↦ hdisjoint l hl ?_, fun hw ↦ ?_⟩
  · rcases List.mem_append.mp hl with hl | hl
    · exact (h.between l hl).mono ⟨Nat.le_refl _, Nat.le_refl _⟩ ⟨hle'.1, hle''⟩
    · exact (hright l hl).mono hle ⟨Nat.le_refl _, Nat.le_refl _⟩
  · exact List.append_subset.mpr ⟨fun _ hn ↦ List.mem_append_left _ (h.loads hn),
      fun _ hn ↦ List.mem_append_right _ (h'.loads hn)⟩
  · simp only [List.cons_append, List.mem_cons, List.mem_append] at hw ⊢
    exact hw.imp_right (Or.imp_right fun hw ↦ writes_subset_touched g hw)
  · exact (hg _ (writes_subset_touched g hw)).2 rfl

theorem observe (property : String) (s : Resumable) :
    Ordered s (.observe property (Resumable.newPoint s).1) (Resumable.newPoint s).2 where
  toRenders := .observe property s
  between l hl := by
    obtain rfl := List.mem_singleton.mp hl
    exact ⟨Nat.le_refl _, Nat.lt_succ_self _⟩
  loads := List.nil_subset _
  sequential := trivial

theorem loadCapture (l : Loadable) (s : Resumable) :
    Ordered s (Strategy.resumable.loadScope l s).1 (Strategy.resumable.loadScope l s).2 where
  toRenders := .loadCapture l s
  between _ hl := nomatch hl
  loads := List.nil_subset _
  sequential := .inl rfl

theorem le_of_inOrder {fs : List Fragment} (h : InOrder Ordered s fs t) :
    s.storage.scratch ≤ t.storage.scratch ∧ s.storage.flags ≤ t.storage.flags := by
  induction fs generalizing s with
  | nil =>
    obtain rfl : s = t := h
    exact ⟨Nat.le_refl _, Nat.le_refl _⟩
  | cons f fs ih =>
    obtain ⟨u, hf, h⟩ := h
    have h₁ := le hf.toRenders
    have h₂ := ih h
    exact ⟨Nat.le_trans h₁.1 h₂.1, Nat.le_trans h₁.2 h₂.2⟩

theorem between_of_inOrder {fs : List Fragment} (h : InOrder Ordered s fs t) {f : Fragment}
    (hf : f ∈ fs) : f.Sequential ∧ ∀ l ∈ f.touched, l.Between s t := by
  induction fs generalizing s with
  | nil => cases hf
  | cons g fs ih =>
    obtain ⟨u, hg, h⟩ := h
    rcases List.mem_cons.mp hf with rfl | hf
    · exact ⟨hg.sequential, fun l hl ↦
        (hg.between l hl).mono ⟨Nat.le_refl _, Nat.le_refl _⟩ (le_of_inOrder h)⟩
    · obtain ⟨hseq, hb⟩ := ih h hf
      exact ⟨hseq, fun l hl ↦ (hb l hl).mono (le hg.toRenders) ⟨Nat.le_refl _, Nat.le_refl _⟩⟩

theorem pairwise_of_inOrder {fs : List Fragment} (h : InOrder Ordered s fs t) :
    fs.Pairwise Before := by
  induction fs generalizing s with
  | nil => exact .nil
  | cons f fs ih =>
    obtain ⟨u, hf, h⟩ := h
    exact .cons (fun g hg ↦ before hf.between (between_of_inOrder h hg).2) (ih h)

section

variable {os : List Operand} {slots : List Nat}

/-- The slots that operands are set aside in are handed out after the operands are rendered. -/
theorem before_store {o o' : Operand} {n n' : Nat} (ho : ∀ l ∈ o.code.touched, l.Between s t)
    (ho' : ∀ l ∈ o'.code.touched, l.Between s t) (hb : o.code.Before o'.code) (hne : n ≠ n')
    (hn : t.storage.scratch ≤ n) (hn' : t.storage.scratch ≤ n') :
    (o.code ++ .op (.storeScratch n)).Before (o'.code ++ .op (.storeScratch n')) := by
  intro l hl hw
  have hl : l ∈ o.code.touched ∨ l = .slot n :=
    (List.mem_append.mp hl).imp_right List.mem_singleton.mp
  have hw : l ∈ o'.code.writes ∨ l = .slot n' :=
    (List.mem_append.mp hw).imp_right List.mem_singleton.mp
  rcases hl with hl | rfl <;> rcases hw with hw | hw
  · exact hb l hl hw
  · have h : t.storage.scratch ≤ n' := hn'
    have hl := ho l hl
    rw [hw] at hl
    exact absurd hl.2 (Nat.not_lt.mpr h)
  · exact absurd (ho' _ (writes_subset_touched _ hw)).2 (Nat.not_lt.mpr hn)
  · cases hw
    exact hne rfl

theorem pairwise_stores (h : InOrder Ordered s (os.map Operand.code) t) (hnd : slots.Nodup)
    (hslots : ∀ n ∈ slots, t.storage.scratch ≤ n) :
    ((os.zip slots).map fun (o, n) ↦ o.code ++ .op (.storeScratch n)).Pairwise Before := by
  have hb := pairwise_of_inOrder h
  have hin (o : Operand) (ho : o ∈ os) := (between_of_inOrder h (List.mem_map_of_mem ho)).2
  clear h
  induction os generalizing slots with
  | nil => exact .nil
  | cons o os ih =>
    obtain _ | ⟨n, slots⟩ := slots
    · exact .nil
    rw [List.nodup_cons] at hnd
    rw [List.map_cons, List.pairwise_cons] at hb
    refine .cons ?_ (ih hnd.2 (fun m hm ↦ hslots m (List.mem_cons_of_mem _ hm)) hb.2 fun p hp ↦
      hin p (List.mem_cons_of_mem _ hp))
    rintro _ hg
    obtain ⟨⟨p, m⟩, hpm, rfl⟩ := List.mem_map.mp hg
    obtain ⟨hp, hm⟩ := List.of_mem_zip hpm
    refine before_store (hin o List.mem_cons_self) (hin p (List.mem_cons_of_mem _ hp))
      (hb.1 _ (List.mem_map_of_mem hp)) ?_ (hslots n List.mem_cons_self)
      (hslots m (List.mem_cons_of_mem _ hm))
    rintro rfl
    exact hnd.1 hm

theorem mem_take_of_mem_zip {α β : Type} {as : List α} {bs : List β} {a : α} {b : β}
    (h : (a, b) ∈ as.zip bs) : a ∈ as.take bs.length := by
  induction as generalizing bs with
  | nil => cases h
  | cons a' as ih =>
    obtain _ | ⟨b', bs⟩ := bs
    · cases h
    rcases List.mem_cons.mp h with heq | h
    · cases heq
      exact List.mem_cons_self
    · exact List.mem_cons_of_mem _ (ih h)

/-- What operands are rendered to: the operand alone or set aside, or a slot that is loaded. -/
theorem mem_spill {f : Fragment}
    (h : f ∈ ((os.zip slots).map fun (o, slot) ↦ o.code ++ Fragment.op (.storeScratch slot)) ++
      slots.map (fun slot ↦ Fragment.op (.loadScratch slot)) ++ (os.drop slots.length).map Operand.code) :
    (∃ o ∈ os, ∃ n ∈ slots, f = o.code ++ .op (.storeScratch n)) ∨
      (∃ n ∈ slots, f = .op (.loadScratch n)) ∨ ∃ o ∈ os, f = o.code := by
  simp only [List.mem_append, or_assoc] at h
  refine h.imp (fun h ↦ ?_) (Or.imp (fun h ↦ ?_) fun h ↦ ?_)
  · obtain ⟨⟨o, n⟩, hon, rfl⟩ := List.mem_map.mp h
    obtain ⟨ho, hn⟩ := List.of_mem_zip hon
    exact ⟨o, ho, n, hn, rfl⟩
  · obtain ⟨n, hn, rfl⟩ := List.mem_map.mp h
    exact ⟨n, hn, rfl⟩
  · obtain ⟨o, ho, rfl⟩ := List.mem_map.mp h
    exact ⟨o, List.mem_of_mem_drop ho, rfl⟩

theorem sequential_spill (h : InOrder Ordered s (os.map Operand.code) t) (hnd : slots.Nodup)
    (hslots : ∀ n ∈ slots, t.storage.scratch ≤ n) : (Resumable.spill os slots).Sequential := by
  have hin (o : Operand) (ho : o ∈ os) := between_of_inOrder h (List.mem_map_of_mem ho)
  refine sequential_concat (fun f hf ↦ ?_) ?_
  · obtain ⟨o, ho, n, hn, rfl⟩ | ⟨n, hn, rfl⟩ | ⟨o, ho, rfl⟩ := mem_spill hf
    · refine ⟨(hin o ho).1, .inr ⟨n, rfl⟩, fun l hl hw ↦ ?_⟩
      obtain rfl := List.mem_singleton.mp hw
      exact absurd ((hin o ho).2 _ hl).2 (Nat.not_lt.mpr (hslots n hn))
    · exact .inl rfl
    · exact (hin o ho).1
  · have hkeep : ∀ f ∈ slots.map fun n ↦ Fragment.op (.loadScratch n), f.writes = [] := by
      rintro f hf
      obtain ⟨n, -, rfl⟩ := List.mem_map.mp hf
      rfl
    have hrest := (pairwise_of_inOrder h).drop (i := slots.length)
    rw [← List.map_drop] at hrest
    refine List.pairwise_append.mpr ⟨List.pairwise_append.mpr ⟨pairwise_stores h hnd hslots, ?_, ?_⟩,
      hrest, fun f hf g hg ↦ ?_⟩
    · refine List.pairwise_of_forall_mem_list fun f _ g hg l _ hw ↦ ?_
      rw [hkeep g hg] at hw
      cases hw
    · intro f _ g hg l _ hw
      rw [hkeep g hg] at hw
      cases hw
    · obtain ⟨p, hp, rfl⟩ := List.mem_map.mp hg
      have hp := List.mem_of_mem_drop hp
      have hslot {n : Nat} (hn : n ∈ slots) : .slot n ∉ p.code.writes := fun hw ↦
        absurd ((hin p hp).2 _ (writes_subset_touched _ hw)).2 (Nat.not_lt.mpr (hslots n hn))
      intro l hl hw
      rcases List.mem_append.mp hf with hf | hf
      · obtain ⟨⟨o, n⟩, hon, rfl⟩ := List.mem_map.mp hf
        rcases List.mem_append.mp hl with hl | hl
        · -- the operand is one of those in front
          have hsplit := (pairwise_of_inOrder h)
          rw [← List.take_append_drop slots.length (os.map Operand.code)] at hsplit
          refine (List.pairwise_append.mp hsplit).2.2 o.code ?_ p.code ?_ l hl hw
          · rw [← List.map_take]
            exact List.mem_map_of_mem (mem_take_of_mem_zip hon)
          · rw [← List.map_drop]
            exact hg
        · obtain rfl := List.mem_singleton.mp hl
          exact hslot (List.of_mem_zip hon).2 hw
      · obtain ⟨n, hn, rfl⟩ := List.mem_map.mp hf
        obtain rfl := List.mem_singleton.mp hl
        exact hslot hn hw

theorem loads_spill (h : InOrder Ordered s (os.map Operand.code) t) (hlen : slots.length ≤ os.length) :
    (Resumable.spill os slots).loads ⊆ (Resumable.spill os slots).stores := by
  have hperm := Renders.perm_spill (q := Fragment.stores) (fun _ _ ↦ rfl) rfl (fun _ ↦ rfl)
    (fun _ ↦ rfl) os slots hlen
  have hin {o : Operand} (ho : o ∈ os) {n : Nat} (hn : n ∈ o.code.loads) :
      n ∈ (os.map Operand.code).flatMap Fragment.stores := by
    obtain ⟨u, v, hu⟩ := h.exists_of_mem (List.mem_map_of_mem ho)
    exact List.mem_flatMap.mpr ⟨_, List.mem_map_of_mem ho, hu.loads hn⟩
  intro n hn
  refine hperm.symm.subset (List.mem_append.mpr ?_)
  rw [Resumable.spill, loads_concat, List.mem_flatMap] at hn
  obtain ⟨f, hf, hn⟩ := hn
  obtain ⟨o, ho, m, -, rfl⟩ | ⟨m, hm, rfl⟩ | ⟨o, ho, rfl⟩ := mem_spill hf
  · exact .inl (hin ho ((List.mem_append.mp hn).resolve_right List.not_mem_nil))
  · exact .inr (List.mem_singleton.mp hn ▸ hm)
  · exact .inl (hin ho hn)

/-- Operands, of which some are set aside in slots that are handed out after them. -/
theorem spill (operands : List Operand) (h : InOrder Ordered s (operands.map Operand.code) t) :
    Ordered s (Strategy.resumable.operands operands t).1
      (Strategy.resumable.operands operands t).2 := by
  have hrenders := Renders.spill operands (h.mono fun _ _ _ h ↦ h.toRenders)
  have hcode : Strategy.resumable.operands operands t =
      (Resumable.spill operands (List.range' t.storage.scratch (Resumable.spilled operands)),
        { t with storage := { t.storage with
          scratch := t.storage.scratch + Resumable.spilled operands } }) := by
    show (Resumable.spill operands (Resumable.newSlots _ t).1, (Resumable.newSlots _ t).2) = _
    rw [Renders.newSlots_eq]
  rw [hcode] at hrenders ⊢
  have hle := le_of_inOrder h
  have hslots : ∀ n ∈ List.range' t.storage.scratch (Resumable.spilled operands),
      t.storage.scratch ≤ n := fun n hn ↦ (List.mem_range'_1.mp hn).1
  refine ⟨hrenders, fun l hl ↦ ?_, loads_spill h ?_, sequential_spill h List.nodup_range' hslots⟩
  · rw [Resumable.spill, touched_concat, List.mem_flatMap] at hl
    obtain ⟨f, hf, hl⟩ := hl
    have hin {o : Operand} (ho : o ∈ operands) (hl : l ∈ o.code.touched) :
        l.Between s { t with storage := { t.storage with
          scratch := t.storage.scratch + Resumable.spilled operands } } :=
      ((between_of_inOrder h (List.mem_map_of_mem ho)).2 l hl).mono
        ⟨Nat.le_refl _, Nat.le_refl _⟩ ⟨Nat.le_add_right _ _, Nat.le_refl _⟩
    have hslot {n : Nat} (hn : n ∈ List.range' t.storage.scratch (Resumable.spilled operands)) :
        (Loc.slot n).Between s { t with storage := { t.storage with
          scratch := t.storage.scratch + Resumable.spilled operands } } := by
      rw [List.mem_range'_1] at hn
      exact ⟨Nat.le_trans hle.1 hn.1, hn.2⟩
    obtain ⟨o, ho, m, hm, rfl⟩ | ⟨m, hm, rfl⟩ | ⟨o, ho, rfl⟩ := mem_spill hf
    · rcases List.mem_append.mp hl with hl | hl
      · exact hin ho hl
      · exact List.mem_singleton.mp hl ▸ hslot hm
    · exact List.mem_singleton.mp hl ▸ hslot hm
    · exact hin ho hl
  · rw [List.length_range']
    exact Renders.spilled_le operands

end

theorem two (o o' : Operand) (h : Ordered s o.code t) (h' : Ordered t o'.code u) :
    Ordered s (Strategy.resumable.operands [o, o'] u).1
      (Strategy.resumable.operands [o, o'] u).2 := by
  have hboth : InOrder Ordered s ([o, o'].map Operand.code) u := ⟨t, h, u, h', rfl⟩
  exact spill [o, o'] hboth

end Ordered

/-- Setting operands aside adds no point. -/
theorem Resumable.points_spill (os : List Operand) (t : Resumable) :
    (Strategy.resumable.operands os t).1.points = os.flatMap (·.code.points) := by
  have hall (os : List Operand) (slots : List Nat) :
      (spill os slots).points = os.flatMap (·.code.points) := by
    have hloads : (slots.map fun n ↦ Fragment.op (.loadScratch n)).flatMap Fragment.points = [] := by
      simp [Fragment.op, Fragment.points]
    simp only [spill, points_concat, List.flatMap_append, hloads, List.append_nil]
    clear hloads
    induction os generalizing slots with
    | nil => simp
    | cons o os ih =>
      cases slots with
      | nil => simp [List.flatMap_map]
      | cons n slots =>
        have hstore : (o.code ++ Fragment.op (.storeScratch n)).points = o.code.points :=
          List.append_nil _
        simp only [List.zip_cons_cons, List.map_cons, List.flatMap_cons, List.length_cons,
          List.drop_succ_cons, List.append_assoc, hstore, ih]
  exact hall os _

namespace Node

variable {cx : BuildContext}

/-- Conversions and instructions behind some code add no points. -/
theorem points_behind (f : Fragment) {c : Fragment} (hc : c.isPlain) : (f ++ c).points = f.points := by
  show f.points ++ c.points = f.points
  rw [(touched_of_isPlain hc).2, List.append_nil]

mutual

/-- A node is rendered with a point for each observable property that it reads. -/
theorem length_points : (n : Node) → n.Resolved cx → (s : Resumable) →
    (n.render .resumable s).1.points.length = n.monitoring
  | literal info value, h, s => (congrArg Facts.monitoring h).symm
  | scopeRead info (.bound l), h, s => (congrArg Facts.monitoring h.2).symm
  | scopeRead info (.pending t), h, s => (congrArg Facts.monitoring h.2).symm
  | typeRef info owner, h, s => (congrArg Facts.monitoring h).symm
  | access info receiver member, h, s => by
    obtain ⟨⟨hf, hmon, -⟩, hr, hm⟩ := h
    have hl := length_points receiver hr s
    have hl' := length_pointsMember member hf hm (receiver.render .resumable s).2
    show (Fragment.points _ ++ Fragment.points _).length = info.monitoring
    rw [List.length_append, hmon, ← hl, ← hl']
  | construct info m args, h, s => by
    obtain ⟨⟨-, hp, hf⟩, ha⟩ := h
    have hmon : info.monitoring = argReads args := congrArg Facts.monitoring hf
    rw [render_construct, points_behind _ rfl, Resumable.points_spill,
      length_pointsArgs args hp.isPlain ha s]
    exact hmon.symm
  | binary info op (.mk left c) (.mk right c') plan, h, s => by
    have hplain := Resolved.isPlain _ h
    obtain ⟨⟨-, hmon, -⟩, hl, hr⟩ := h
    have hc (f : Fragment) := points_behind f (hplain c (by simp [coercions]))
    have hc' (f : Fragment) := points_behind f (hplain c' (by simp [coercions]))
    have hboth (t : Resumable) : (((left.render .resumable s).1 ++ c).points ++
        ((right.render .resumable t).1 ++ c').points).length = info.monitoring := by
      rw [hc, hc', List.length_append, length_points left hl s, length_points right hr t, hmon]
      rfl
    by_cases hp : plan = .shortCircuit
    · subst hp
      rw [render_shortCircuit]
      by_cases hm : 0 < right.monitoring
      · simp only [hm]
        exact hboth (Layout.inside (left.render .resumable s).2)
      · simp only [hm]
        exact hboth (left.render .resumable s).2
    · rw [render_binary _ _ _ _ _ _ _ _ hp, points_behind _ (isPlain_plan op plan),
        Resumable.points_spill, List.flatMap_cons, List.flatMap_cons, List.flatMap_nil,
        List.append_nil]
      exact hboth (left.render .resumable s).2
  | unary info op (.mk operand c) kind, h, s => by
    have hplain := Resolved.isPlain _ h
    obtain ⟨⟨hmon, -⟩, ho⟩ := h
    show ((operand.render .resumable s).1 ++ c ++ .op (op.op kind)).points.length = info.monitoring
    rw [points_behind _ (isPlain_unary op kind), points_behind _ (hplain c (by simp [coercions])),
      length_points operand ho s, hmon]
    rfl

theorem length_pointsMember {receiver : Node} {ty : Ty} : (m : Member) →
    MemberFits cx receiver ty m → memberForall (Fits cx) m → (s : Resumable) →
    (renderMember .resumable m s).1.points.length = memberReads m
  | .property p, _, _, s => by
    rw [renderMember_property]
    simp only [memberReads]
    split <;> rfl
  | .staticField f, _, _, s => rfl
  | .method m args, hf, h, s => by
    obtain ⟨-, -, hp, -⟩ := hf
    rw [renderMember_method, points_behind _ rfl, Resumable.points_spill]
    exact length_pointsArgs args hp.isPlain h s
  | .staticCall m args, hf, h, s => by
    obtain ⟨-, -, -, -, -, hp, -⟩ := hf
    rw [renderMember_staticCall, points_behind _ rfl, Resumable.points_spill]
    exact length_pointsArgs args hp.isPlain h s
  | .index (.mk node c) reading, hf, h, s => by
    have hc := memberIsPlain _ hf h c (by simp [memberCoercions])
    rw [renderMember_index, points_behind _ (by cases reading <;> rfl), Resumable.points_spill,
      List.flatMap_cons, List.flatMap_cons, List.flatMap_nil, List.append_nil, points_behind _ hc]
    exact length_points node h s

theorem length_pointsArgs : (args : List Arg) → (∀ a ∈ args, a.coercion.isPlain) →
    argsForall (Fits cx) args → (s : Resumable) →
    ((renderArgs .resumable args s).1.flatMap (·.code.points)).length = argReads args
  | [], _, _, s => rfl
  | .mk node c :: rest, hp, h, s => by
    have hrest := length_pointsArgs rest (fun a ha ↦ hp a (List.mem_cons_of_mem _ ha)) h.2
      (node.render .resumable s).2
    have hc : c.isPlain := hp _ List.mem_cons_self
    show (((node.render .resumable s).1 ++ c).points ++ List.flatMap _ _).length = _
    rw [points_behind _ hc, List.length_append, hrest,
      length_points node h.1 s]
    rfl

end

mutual

/-- The parts of the code of a node keep out of each other's way. -/
theorem ordered : (n : Node) → n.Resolved cx → (s : Resumable) →
    Ordered s (n.render .resumable s).1 (n.render .resumable s).2
  | literal _ value, _, s => .plain s (isPlain_push value)
  | scopeRead _ (.bound l), _, s => .loadCapture l s
  | scopeRead _ (.pending _), _, s => .plain s rfl
  | typeRef _ _, _, s => .plain s rfl
  | access _ receiver member, h, s =>
    (ordered receiver h.2.1 s).append (orderedMember member h.1.1 h.2.2 _)
  | construct info method args, h, s => by
    obtain ⟨⟨-, hp, -⟩, ha⟩ := h
    rw [render_construct]
    exact (Ordered.spill _ (orderedArgs args hp.isPlain ha s)).append (.plain _ rfl)
  | binary info op (.mk left c) (.mk right c') plan, h, s => by
    have hplain := Resolved.isPlain _ h
    obtain ⟨-, hl, hr⟩ := h
    have hc (s : Resumable) := Ordered.plain s (hplain c (by simp [coercions]))
    have hright (s : Resumable) : Ordered s ((right.render .resumable s).1 ++ c')
        (right.render .resumable s).2 :=
      (ordered right hr s).append (.plain _ (hplain c' (by simp [coercions])))
    have hleft := (ordered left hl s).append (hc _)
    by_cases hp : plan = .shortCircuit
    · subst hp
      rw [render_shortCircuit]
      by_cases hm : 0 < right.monitoring
      · simp only [hm]
        exact hleft.branch op (hright _)
      · simp only [hm]
        refine hleft.shortCircuit op (hright _) ?_
        rw [points_behind _ (hplain c' (by simp [coercions])), ← List.length_eq_zero_iff,
          length_points right hr]
        omega
    · rw [render_binary _ _ _ _ _ _ _ _ hp]
      exact (Ordered.two _ _ hleft (hright _)).append (.plain _ (isPlain_plan op plan))
  | unary _ op (.mk operand c) kind, h, s =>
    ((ordered operand h.2 s).append (.plain _ (Resolved.isPlain _ h c (by simp [coercions])))).append
      (.plain _ (isPlain_unary op kind))

theorem orderedMember {receiver : Node} {ty : Ty} : (m : Member) →
    MemberFits cx receiver ty m → memberForall (Fits cx) m → (s : Resumable) →
    Ordered s (renderMember .resumable m s).1 (renderMember .resumable m s).2
  | .property p, _, _, s => by
    rw [renderMember_property]
    split
    · exact .observe p.name s
    · exact .plain s rfl
  | .staticField _, _, _, s => .plain s rfl
  | .method method args, hf, h, s => by
    obtain ⟨-, -, hp, -⟩ := hf
    rw [renderMember_method]
    exact (Ordered.spill (.onStack :: _)
      ⟨s, .plain s rfl, orderedArgs args hp.isPlain h s⟩).append (.plain _ rfl)
  | .staticCall method args, hf, h, s => by
    obtain ⟨-, -, -, -, -, hp, -⟩ := hf
    rw [renderMember_staticCall]
    exact (Ordered.spill _ (orderedArgs args hp.isPlain h s)).append (.plain _ rfl)
  | .index (.mk node c) reading, hf, h, s => by
    have hc := Ordered.plain (node.render .resumable s).2
      (memberIsPlain _ hf h c (by simp [memberCoercions]))
    rw [renderMember_index]
    exact (Ordered.two .onStack _ (.plain s rfl) ((ordered node h s).append hc)).append
      (.plain _ (by cases reading <;> rfl))

theorem orderedArgs : (args : List Arg) → (∀ a ∈ args, a.coercion.isPlain) →
    argsForall (Fits cx) args → (s : Resumable) →
    InOrder Ordered s ((renderArgs .resumable args s).1.map Operand.code)
      (renderArgs .resumable args s).2
  | [], _, _, _ => rfl
  | .mk node _ :: rest, hp, h, s =>
    ⟨_, (ordered node h.1 s).append (.plain _ (hp _ List.mem_cons_self)),
      orderedArgs rest (fun a ha ↦ hp a (List.mem_cons_of_mem _ ha)) h.2 _⟩

end

end Node

end LiveBinding
