import LiveBinding.Proofs.Bookkeeping
import LiveBinding.Proofs.Direct

namespace LiveBinding

namespace Assembler

/-- The label was made by the assembler. -/
def Has (a : Assembler) (l : Label) : Prop := l.index < a.positions.size

instance (a : Assembler) (l : Label) : Decidable (a.Has l) :=
  inferInstanceAs (Decidable (l.index < a.positions.size))

def labels (a : Assembler) : List Label := (List.range a.positions.size).map Label.mk

/-- An assembler after calls that name only labels it has made, with the labels they placed. -/
inductive Calls : List Label → Assembler → Prop
  | empty : Calls [] .empty
  | emit {ps : List Label} {a : Assembler} {op : Op} (h : Calls ps a)
      (hop : ∀ l ∈ op.targets, a.Has l) : Calls ps (a.emit op)
  | newLabel {ps : List Label} {a : Assembler} (h : Calls ps a) : Calls ps a.newLabel.2
  | keyedLabel {ps : List Label} {a : Assembler} (key : LabelKey) (h : Calls ps a) :
      Calls ps (a.keyedLabel key).2
  | place {ps : List Label} {a : Assembler} {l : Label} (h : Calls ps a) (hl : a.Has l) :
      Calls (ps ++ [l]) (a.place l)

/-- Every label that was made is placed once, and instructions name no other label. -/
structure Sealed (a : Assembler) : Prop where
  placed : ∃ ps, Calls ps a ∧ ps.Perm a.labels
  named : ∀ op ∈ a.ops, ∀ l ∈ op.targets, l ∈ a.labels

variable {a b : Assembler} {l : Label} {key : LabelKey} {ps : List Label}

theorem mem_labels : l ∈ a.labels ↔ a.Has l := by
  simp only [labels, List.mem_map, List.mem_range, Has]
  constructor
  · rintro ⟨i, hi, rfl⟩
    exact hi
  · exact fun h ↦ ⟨l.index, h, rfl⟩

theorem nodup_labels : a.labels.Nodup :=
  List.nodup_range.map fun _ _ h ↦ congrArg Label.index h

theorem count_labels (l : Label) : a.labels.count l = if a.Has l then 1 else 0 := by
  rw [List.Nodup.count nodup_labels]
  simp only [mem_labels]

theorem keyed_place (a : Assembler) (l : Label) : (a.place l).keyed = a.keyed := by
  unfold place
  split <;> rfl

section Has

theorem has_newLabel : a.newLabel.2.Has a.newLabel.1 := by simp [Has, newLabel]

theorem Has.newLabel (h : a.Has l) : a.newLabel.2.Has l := by
  simp only [Has, Assembler.newLabel, Array.size_push] at h ⊢
  omega

theorem not_has_newLabel : ¬a.Has a.newLabel.1 := Nat.lt_irrefl _

theorem Has.keyedLabel (h : a.Has l) (key : LabelKey) : (a.keyedLabel key).2.Has l := by
  unfold Assembler.keyedLabel
  split
  · exact h
  · exact h.newLabel

theorem has_place {l' : Label} : (a.place l').Has l ↔ a.Has l := by
  unfold place Has
  split
  · simp
  · rfl

theorem Has.emitAll (h : a.Has l) (ops : List Op) : (a.emitAll ops).Has l := by
  induction ops generalizing a with
  | nil => exact h
  | cons op ops ih => exact ih h

end Has

namespace Calls

theorem named (h : Calls ps a) : ∀ op ∈ a.ops, ∀ l ∈ op.targets, a.Has l := by
  induction h with
  | empty => simp [Assembler.empty]
  | @emit ps a op h hop ih =>
    intro o ho
    rcases Array.mem_push.mp ho with ho | rfl
    · exact ih o ho
    · exact hop
  | newLabel h ih => exact fun op ho l hl ↦ (ih op ho l hl).newLabel
  | @keyedLabel ps a key h ih =>
    rw [ops_keyedLabel]
    exact fun op ho l hl ↦ (ih op ho l hl).keyedLabel key
  | place h hl ih =>
    rw [ops_place]
    exact fun op ho l hl ↦ has_place.mpr (ih op ho l hl)

theorem has (h : Calls ps a) : ∀ l ∈ ps, a.Has l := by
  induction h with
  | empty => exact fun l hl ↦ absurd hl List.not_mem_nil
  | emit h hop ih => exact ih
  | newLabel h ih => exact fun l hl ↦ (ih l hl).newLabel
  | keyedLabel key h ih => exact fun l hl ↦ (ih l hl).keyedLabel key
  | place h hl ih =>
    intro l' hl'
    rw [has_place]
    rcases List.mem_append.mp hl' with hl' | hl'
    · exact ih l' hl'
    · exact List.mem_singleton.mp hl' ▸ hl

/-- Nothing failed, and the labels that are not in the list are open. -/
def Open (ps : List Label) (a : Assembler) : Prop :=
  a.firstError = none ∧ ∀ i, a.positions[i]? = some none ↔ i < a.positions.size ∧ Label.mk i ∉ ps

theorem Open.newLabel (h : Open ps a) (hps : ∀ l ∈ ps, a.Has l) : Open ps a.newLabel.2 := by
  refine ⟨h.1, fun i ↦ ?_⟩
  have hnew : Label.mk a.positions.size ∉ ps := fun hmem ↦ Nat.lt_irrefl _ (hps _ hmem)
  simp only [Assembler.newLabel, Array.getElem?_push, Array.size_push]
  split
  · next hi => simp [hi, hnew]
  · next hi =>
    rw [h.2 i]
    exact and_congr_left fun _ ↦ by omega

theorem Open.place (h : Open ps a) (hl : a.Has l) (hmem : l ∉ ps) : Open (ps ++ [l]) (a.place l) := by
  have hnone : a.positions[l.index]? = some none := (h.2 l.index).mpr ⟨hl, hmem⟩
  unfold Assembler.place
  rw [hnone]
  refine ⟨h.1, fun i ↦ ?_⟩
  simp only [Array.getElem?_setIfInBounds, Array.size_setIfInBounds, List.mem_append,
    List.mem_singleton]
  by_cases hi : l.index = i
  · subst hi
    simp
  · have hne : Label.mk i ≠ l := fun he ↦ hi (congrArg Label.index he).symm
    simp only [if_neg hi, h.2 i, hne, or_false]

/-- If no label is placed twice nothing fails. -/
theorem isOpen (h : Calls ps a) (hps : ps.Nodup) : Open ps a := by
  induction h with
  | empty => simp [Open, Assembler.empty]
  | emit h hop ih => exact ih hps
  | newLabel h ih => exact (ih hps).newLabel h.has
  | keyedLabel key h ih =>
    unfold Assembler.keyedLabel
    split
    · exact ih hps
    · exact (ih hps).newLabel h.has
  | place h hl ih =>
    rw [List.nodup_append] at hps
    obtain ⟨hps, -, hdisj⟩ := hps
    exact (ih hps).place hl fun hmem ↦ hdisj _ hmem _ (List.mem_singleton_self _) rfl

end Calls

/-- A sealed assembler gives a routine. -/
theorem Sealed.finish (h : a.Sealed) : a.finish = .ok ⟨a.ops, a.positions.map (·.getD 0)⟩ := by
  obtain ⟨ps, hcalls, hperm⟩ := h.placed
  obtain ⟨he, hopen⟩ := hcalls.isOpen (hperm.nodup_iff.mpr nodup_labels)
  have hnone : a.positions.findIdx? (·.isNone) = none := by
    rw [Array.findIdx?_eq_none_iff]
    intro p hp
    obtain ⟨i, hi, rfl⟩ := Array.mem_iff_getElem.mp hp
    cases hpi : a.positions[i] with
    | some p => rfl
    | none =>
      have hget : a.positions[i]? = some none := by rw [Array.getElem?_eq_getElem hi, hpi]
      exact absurd (hperm.mem_iff.mpr (mem_labels.mpr hi)) ((hopen i).mp hget).2
  unfold Assembler.finish
  rw [he, hnone]

/-- The labels of those keys that have one. -/
def labelsOf (a : Assembler) (keys : List LabelKey) : List Label :=
  keys.filterMap fun key ↦ a.keyed.lookup key

/-- An assembler at work: the keys whose labels were placed, and the labels without a key that are
still to be placed. Keys are asked for only if they are allowed. -/
structure Built (allowed : LabelKey → Prop) (keys : List LabelKey) (owed : List Label)
    (a : Assembler) : Prop where
  calls : ∃ ps, Calls ps a ∧ ∀ l, ps.count l + owed.count l + (a.keyed.map Prod.snd).count l =
    (if a.Has l then 1 else 0) + (a.labelsOf keys).count l
  owes : ∀ l ∈ owed, a.Has l
  known : ∀ key l, a.keyed.lookup key = some l → allowed key ∧ a.Has l
  nodup : (a.keyed.map Prod.fst).Nodup
  registered : ∀ key ∈ keys, (a.keyed.lookup key).isSome

namespace Built

variable {allowed : LabelKey → Prop} {keys : List LabelKey} {owed : List Label}

theorem empty : Built allowed [] [] .empty where
  calls := ⟨[], .empty, fun l ↦ by simp [Assembler.empty, Has, labelsOf]⟩
  owes := by simp
  known := by simp [Assembler.empty]
  nodup := .nil
  registered := by simp

theorem perm {owed' : List Label} (h : Built allowed keys owed a) (hp : owed.Perm owed') :
    Built allowed keys owed' a where
  calls := by
    obtain ⟨ps, hcalls, hcount⟩ := h.calls
    exact ⟨ps, hcalls, fun l ↦ hp.count_eq l ▸ hcount l⟩
  owes l hl := h.owes l (hp.mem_iff.mpr hl)
  known := h.known
  nodup := h.nodup
  registered := h.registered

theorem emit {op : Op} (h : Built allowed keys owed a) (hop : ∀ l ∈ op.targets, a.Has l) :
    Built allowed keys owed (a.emit op) where
  calls := by
    obtain ⟨ps, hcalls, hcount⟩ := h.calls
    exact ⟨ps, hcalls.emit hop, hcount⟩
  owes := h.owes
  known := h.known
  nodup := h.nodup
  registered := h.registered

theorem emitAll (h : Built allowed keys owed a) {ops : List Op}
    (hops : ∀ op ∈ ops, ∀ l ∈ op.targets, a.Has l) : Built allowed keys owed (a.emitAll ops) := by
  induction ops generalizing a with
  | nil => exact h
  | cons op ops ih =>
    rw [List.forall_mem_cons] at hops
    exact ih (h.emit hops.1) hops.2

theorem count_newLabel (l : Label) : (if a.newLabel.2.Has l then 1 else 0) =
    (if a.Has l then 1 else 0) + [a.newLabel.1].count l := by
  have hiff : a.newLabel.2.Has l ↔ a.Has l ∨ l.index = a.positions.size := by
    simp only [Has, Assembler.newLabel, Array.size_push]
    omega
  rw [List.count_singleton]
  by_cases hl : l.index = a.positions.size
  · have heq : a.newLabel.1 = l := congrArg Label.mk hl.symm
    rw [if_pos (hiff.mpr (.inr hl)), if_neg (fun h ↦ not_has_newLabel (heq ▸ h)), heq]
    simp
  · have hne : ¬a.newLabel.1 = l := fun he ↦ hl (congrArg Label.index he).symm
    simp [hiff, hl, hne]

theorem newLabel (h : Built allowed keys owed a) :
    Built allowed keys (a.newLabel.1 :: owed) a.newLabel.2 where
  calls := by
    obtain ⟨ps, hcalls, hcount⟩ := h.calls
    refine ⟨ps, hcalls.newLabel, fun l ↦ ?_⟩
    have hl := hcount l
    rw [count_newLabel, ← List.singleton_append, List.count_append]
    simp only [labelsOf, Assembler.newLabel] at hl ⊢
    omega
  owes := List.forall_mem_cons.mpr ⟨has_newLabel, fun l hl ↦ (h.owes l hl).newLabel⟩
  known key l hl := (h.known key l hl).imp_right Has.newLabel
  nodup := h.nodup
  registered := h.registered

theorem place (h : Built allowed keys (l :: owed) a) : Built allowed keys owed (a.place l) := by
  have hkeyed : (a.place l).keyed = a.keyed := keyed_place a l
  obtain ⟨ps, hcalls, hcount⟩ := h.calls
  refine ⟨⟨_, hcalls.place (h.owes l List.mem_cons_self), fun l' ↦ ?_⟩, fun l' hl' ↦ ?_, ?_, ?_, ?_⟩
  · have hl := hcount l'
    rw [← List.singleton_append, List.count_append] at hl
    simp only [has_place, labelsOf, hkeyed, List.count_append] at hl ⊢
    omega
  · exact has_place.mpr (h.owes l' (List.mem_cons_of_mem _ hl'))
  · rw [hkeyed]
    exact fun key l hl ↦ (h.known key l hl).imp_right has_place.mpr
  · rw [hkeyed]
    exact h.nodup
  · rw [hkeyed]
    exact h.registered

theorem keyedLabel_of_none (h : a.keyed.lookup key = none) : a.keyedLabel key =
    (a.newLabel.1, { a.newLabel.2 with keyed := (key, a.newLabel.1) :: a.keyed }) := by
  rw [Assembler.keyedLabel, h]
  rfl

theorem has_keyedLabel (h : Built allowed keys owed a) (key : LabelKey) :
    (a.keyedLabel key).2.Has (a.keyedLabel key).1 := by
  cases hk : a.keyed.lookup key with
  | some l =>
    rw [Assembler.keyedLabel, hk]
    exact (h.known key l hk).2
  | none =>
    rw [keyedLabel_of_none hk]
    exact has_newLabel

/-- A label that is made for a key is owed through the key. -/
theorem keyedLabel (h : Built allowed keys owed a) (hk : allowed key) :
    Built allowed keys owed (a.keyedLabel key).2 := by
  cases hnone : a.keyed.lookup key with
  | some l => rwa [Assembler.keyedLabel, hnone]
  | none =>
    obtain ⟨ps, hcalls, hcount⟩ := h.calls
    have hcalls := hcalls.keyedLabel key
    have hne : ∀ key' ∈ keys, key' ≠ key := by
      rintro key' hmem rfl
      have hsome := h.registered key' hmem
      rw [hnone] at hsome
      cases hsome
    have hlookup : ∀ key' ∈ keys,
        ((key, a.newLabel.1) :: a.keyed).lookup key' = a.keyed.lookup key' := fun key' hmem ↦ by
      rw [List.lookup_cons, beq_false_of_ne (hne key' hmem)]
    rw [keyedLabel_of_none hnone] at hcalls ⊢
    refine ⟨⟨ps, hcalls, fun l ↦ ?_⟩, fun l hl ↦ (h.owes l hl).newLabel, fun key' l hl ↦ ?_, ?_, ?_⟩
    · have hl := hcount l
      have hlabels : labelsOf { a.newLabel.2 with keyed := (key, a.newLabel.1) :: a.keyed } keys =
          a.labelsOf keys := List.filterMap_congr hlookup
      have hhas : (if Has { a.newLabel.2 with keyed := (key, a.newLabel.1) :: a.keyed } l then 1 else 0) =
          (if a.Has l then 1 else 0) + [a.newLabel.1].count l := count_newLabel l
      rw [hlabels, hhas, List.map_cons, ← List.singleton_append, List.count_append]
      dsimp only
      omega
    · by_cases heq : key' = key
      · subst heq
        rw [List.lookup_cons_self] at hl
        cases hl
        exact ⟨hk, has_newLabel⟩
      · rw [List.lookup_cons, beq_false_of_ne heq] at hl
        exact (h.known key' l hl).imp_right Has.newLabel
    · refine List.nodup_cons.mpr ⟨fun hmem ↦ ?_, h.nodup⟩
      obtain ⟨e, he, hkey⟩ := List.mem_map.mp hmem
      have hbne := List.lookup_eq_none_iff.mp hnone e he
      simp [hkey] at hbne
    · exact fun key' hmem ↦ (hlookup key' hmem).symm ▸ h.registered key' hmem

theorem placeKey (h : Built allowed keys owed a) (hk : allowed key) :
    Built allowed (keys ++ [key]) owed (a.placeKey key) := by
  have h' := h.keyedLabel hk
  have hlookup := lookup_keyedLabel a key
  obtain ⟨ps, hcalls, hcount⟩ := h'.calls
  show Built _ _ _ ((a.keyedLabel key).2.place (a.keyedLabel key).1)
  have hkeyed := keyed_place (a.keyedLabel key).2 (a.keyedLabel key).1
  refine ⟨⟨_, hcalls.place (h.has_keyedLabel key), fun l ↦ ?_⟩, fun l hl ↦ has_place.mpr (h'.owes l hl),
    ?_, hkeyed ▸ h'.nodup, ?_⟩
  · have hl := hcount l
    simp only [labelsOf, hkeyed, has_place, List.filterMap_append, List.count_append, hlookup,
      List.filterMap_cons, List.filterMap_nil] at hl ⊢
    omega
  · rw [hkeyed]
    exact fun key l hl ↦ (h'.known key l hl).imp_right has_place.mpr
  · intro key' hmem
    rw [hkeyed]
    rcases List.mem_append.mp hmem with hmem | hmem
    · exact h'.registered key' hmem
    · rw [List.mem_singleton.mp hmem, hlookup]
      rfl

theorem lookup_self {entries : List (LabelKey × Label)} (h : (entries.map Prod.fst).Nodup) :
    (entries.map Prod.fst).filterMap (fun key ↦ entries.lookup key) = entries.map Prod.snd := by
  induction entries with
  | nil => rfl
  | cons e entries ih =>
    obtain ⟨key, label⟩ := e
    rw [List.map_cons, List.nodup_cons] at h
    have hrest : (entries.map Prod.fst).filterMap (fun k ↦ ((key, label) :: entries).lookup k) =
        (entries.map Prod.fst).filterMap (fun k ↦ entries.lookup k) := by
      refine List.filterMap_congr fun k hmem ↦ ?_
      have hne : k ≠ key := fun he ↦ h.1 (he ▸ hmem)
      rw [List.lookup_cons, beq_false_of_ne hne]
    rw [List.map_cons, List.map_cons, List.filterMap_cons, List.lookup_cons_self, hrest, ih h.2]

/-- Once the labels of all keys are placed and no other is owed, every label is placed. -/
theorem isSealed (h : Built (· ∈ keys) keys [] a) (hkeys : keys.Nodup) : a.Sealed := by
  have hperm : keys.Perm (a.keyed.map Prod.fst) := by
    refine (List.perm_ext_iff_of_nodup hkeys h.nodup).mpr fun key ↦ ⟨fun hmem ↦ ?_, fun hmem ↦ ?_⟩
    · obtain ⟨e, he, hbeq⟩ := List.lookup_isSome_iff.mp (h.registered key hmem)
      exact List.mem_map.mpr ⟨e, he, (eq_of_beq hbeq).symm⟩
    · obtain ⟨e, he, rfl⟩ := List.mem_map.mp hmem
      obtain ⟨l, hl⟩ := Option.isSome_iff_exists.mp
        (List.lookup_isSome_iff.mpr ⟨e, he, beq_self_eq_true e.1⟩)
      exact (h.known e.1 l hl).1
  have hlabels : (a.labelsOf keys).Perm (a.keyed.map Prod.snd) := by
    have hall := hperm.filterMap fun key ↦ a.keyed.lookup key
    rwa [lookup_self h.nodup] at hall
  obtain ⟨ps, hcalls, hcount⟩ := h.calls
  refine ⟨⟨ps, hcalls, List.perm_iff_count.mpr fun l ↦ ?_⟩, fun op hop l hl ↦ ?_⟩
  · have hl := hcount l
    rw [hlabels.count_eq, List.count_nil] at hl
    rw [count_labels]
    omega
  · exact mem_labels.mpr (hcalls.named op hop l hl)

end Built

end Assembler

namespace Fragment

open Assembler

/-- The instructions of a fragment that are given as such name no label. -/
def isJumpless : Fragment → Bool
  | ops list => list.all (·.targets.isEmpty)
  | append f g | nullGuard f g | shortCircuit _ f g | branch _ f g .. => f.isJumpless && g.isJumpless
  | flagTest _ | flagAssign .. | observe .. => true

/-- The code makes no label and names none. -/
def isLabelFree : Fragment → Bool
  | ops list => list.all (·.targets.isEmpty)
  | append f g => f.isLabelFree && g.isLabelFree
  | flagTest _ | flagAssign .. => true
  | nullGuard .. | shortCircuit .. | observe .. | branch .. => false

theorem isJumpless_of_isStraight {f : Fragment} (h : f.isStraight) : f.isJumpless := by
  induction f with
  | ops list =>
    simp only [isStraight, isJumpless, List.all_eq_true] at h ⊢
    intro op hop
    have hs := h op hop
    cases op <;> first | rfl | cases hs
  | append f g ih ih' | nullGuard f g ih ih' | shortCircuit _ f g ih ih' | branch _ f g _ _ _ ih ih' =>
    simp only [isStraight, isJumpless, Bool.and_eq_true] at h ⊢
    exact ⟨ih h.1, ih' h.2⟩
  | flagTest | flagAssign | observe => rfl

theorem targets_test (layout : FlagLayout) (flag : Nat) : (layout.test flag).targets = [] := by
  cases layout <;> rfl

theorem targets_assign (layout : FlagLayout) (flag : Nat) (value : Bool) :
    (layout.assign flag value).targets = [] := by
  cases layout <;> rfl

end Fragment

namespace Assembler.Built

open Fragment

variable {allowed : LabelKey → Prop} {keys : List LabelKey} {owed : List Label} {a : Assembler}

/-- Instructions that name labels which are still to be placed. -/
theorem emitOwed (h : Built allowed keys owed a) (ops : List Op)
    (hops : ∀ l ∈ ops.flatMap Op.targets, l ∈ owed) : Built allowed keys owed (a.emitAll ops) :=
  h.emitAll fun op hop l hl ↦ h.owes l (hops l (List.mem_flatMap.mpr ⟨op, hop, hl⟩))

/-- An instruction that names the label of a key. -/
theorem emitKeyed (h : Built allowed keys owed a) {key : LabelKey} (hk : allowed key) (op : Op)
    (hop : op.targets = [(a.keyedLabel key).1]) :
    Built allowed keys owed ((a.keyedLabel key).2.emit op) :=
  (h.keyedLabel hk).emit fun l hl ↦ by
    rw [hop, List.mem_singleton] at hl
    exact hl ▸ h.has_keyedLabel key

theorem adjust (h : Built allowed keys owed a) (counters : List Nat) (delta : Int32) :
    Built allowed keys owed (a.emitAll (adjust counters delta)) := by
  refine h.emitOwed _ fun l hl ↦ ?_
  obtain ⟨op, hop, hl⟩ := List.mem_flatMap.mp hl
  obtain ⟨n, -, rfl⟩ := List.mem_map.mp hop
  exact absurd hl List.not_mem_nil

theorem skipTest (h : Built allowed keys owed a) (op : BinaryOp) {l : Label} (hl : l ∈ owed) :
    Built allowed keys owed (a.emitAll [.dup, skipJump op l, .pop]) := by
  refine h.emitOwed _ ?_
  unfold skipJump
  split <;> simp [Op.targets, hl]

theorem detach (h : Built allowed keys owed a) (p : SavePoint) :
    Built allowed keys owed (emitDetach a p) := by
  have hlabels := h.newLabel.newLabel
  have hload := (hlabels.emitOwed [.loadScratch p.handle, .dup, .jumpIfNull a.newLabel.1,
    .unsubscribe p.step, .pushNull, .storeScratch p.handle] (by simp [Op.targets])).adjust p.counters (-1)
  have hjump := hload.emitOwed [.jump a.newLabel.2.newLabel.1] (by simp [Op.targets])
  exact ((hjump.perm (.swap ..)).place.emitOwed [.pop] (by simp [Op.targets])).place

theorem detaches (h : Built allowed keys owed a) (points : List SavePoint) :
    Built allowed keys owed (points.foldl emitDetach a) := by
  induction points generalizing a with
  | nil => exact h
  | cons p points ih => exact ih (h.detach p)

/-- Listening to a property places the label of its step. -/
theorem observe (h : Built allowed keys owed a) (property : String) (p : SavePoint)
    (hp : allowed (.step p.step)) :
    Built allowed (keys ++ [LabelKey.step p.step]) owed (emitObserve property p a) := by
  let keep := a.newLabel.1
  let noDetach := a.newLabel.2.newLabel.1
  let attach := a.newLabel.2.newLabel.2.newLabel.1
  have hlabels : Built allowed keys (attach :: noDetach :: keep :: owed) _ := h.newLabel.newLabel.newLabel
  have htest := (hlabels.emitOwed [.getObservable property, .dup, .loadScratch p.handle, .jumpIfSame keep,
    .loadScratch p.handle, .dup, .jumpIfNull noDetach, .unsubscribe p.step]
    (by simp [Op.targets])).adjust p.counters (-1)
  have hmove := htest.emitOwed [.jump attach] (by simp [Op.targets])
  have hpop := (hmove.perm (.swap ..)).place.emitOwed [.pop] (by simp [Op.targets])
  have hattach := (hpop.place.emitOwed [.storeScratch p.handle, .loadScratch p.handle,
    .subscribe p.step] (by simp [Op.targets])).adjust p.counters 1
  have hresume := hattach.emitKeyed hp (.jump _) rfl
  have hkeep := hresume.place.emitOwed [.pop] (by simp [Op.targets])
  exact (hkeep.placeKey hp).emitOwed [.loadScratch p.handle, .observableValue] (by simp [Op.targets])

/-- The code of a fragment places the labels it makes and those of its steps. -/
theorem fragment {f : Fragment} (h : Built allowed keys owed a) (hf : f.isJumpless)
    (hsteps : ∀ k ∈ f.steps, allowed (.step k)) (layout : Option FlagLayout) :
    Built allowed (keys ++ f.steps.map .step) owed (f.emit layout a) := by
  induction f generalizing a keys owed with
  | ops list =>
    rw [isJumpless, List.all_eq_true] at hf
    refine (List.append_nil keys).symm ▸ h.emitOwed list fun l hl ↦ ?_
    obtain ⟨op, hop, hl⟩ := List.mem_flatMap.mp hl
    exact absurd (List.isEmpty_iff.mp (hf op hop) ▸ hl) List.not_mem_nil
  | flagTest flag =>
    refine (List.append_nil keys).symm ▸ h.emitOwed [(layoutFor layout flag).test flag] ?_
    simp [targets_test]
  | flagAssign flag value =>
    refine (List.append_nil keys).symm ▸ h.emitOwed [(layoutFor layout flag).assign flag value] ?_
    simp [targets_assign]
  | observe property p => exact h.observe property p (hsteps _ (List.mem_singleton_self _))
  | append f g ih ih' =>
    rw [isJumpless, Bool.and_eq_true] at hf
    rw [steps_append, List.forall_mem_append] at hsteps
    rw [steps_append, List.map_append, ← List.append_assoc]
    exact ih' (ih h hf.1 hsteps.1) hf.2 hsteps.2
  | nullGuard f g ih ih' =>
    rw [isJumpless, Bool.and_eq_true] at hf
    rw [steps_nullGuard, List.forall_mem_append] at hsteps
    rw [steps_nullGuard, List.map_append, ← List.append_assoc]
    have htest := h.newLabel.newLabel.emitOwed [.dup, .jumpIfNull a.newLabel.1] (by simp [Op.targets])
    have hleave := (ih htest hf.1 hsteps.1).emitOwed [.jump a.newLabel.2.newLabel.1] (by simp [Op.targets])
    have hpop := (hleave.perm (.swap ..)).place.emitOwed [.pop] (by simp [Op.targets])
    exact (ih' hpop hf.2 hsteps.2).place
  | shortCircuit op f g ih ih' =>
    rw [isJumpless, Bool.and_eq_true] at hf
    rw [steps_shortCircuit, List.forall_mem_append] at hsteps
    rw [steps_shortCircuit, List.map_append, ← List.append_assoc]
    have htest := (ih h.newLabel hf.1 hsteps.1).skipTest op List.mem_cons_self
    exact (ih' htest hf.2 hsteps.2).place
  | branch op f g flag counter points ih ih' =>
    rw [isJumpless, Bool.and_eq_true] at hf
    rw [steps_branch, List.forall_mem_append] at hsteps
    rw [steps_branch, List.map_append, ← List.append_assoc]
    let done := a.newLabel.2.newLabel.1
    have htest := (ih h.newLabel.newLabel hf.1 hsteps.1).skipTest op
      (List.mem_cons_of_mem _ List.mem_cons_self)
    have hset := htest.emitOwed [(layoutFor layout flag).assign flag true] (by simp [targets_assign])
    have hleave := (ih' hset hf.2 hsteps.2).emitOwed [.jump done] (by simp [Op.targets, done])
    have hunset := (hleave.perm (.swap ..)).place.emitOwed
      [(layoutFor layout flag).assign flag false] (by simp [targets_assign])
    have hload := hunset.emitOwed [.counterLoad counter, .jumpIfZero done] (by simp [Op.targets, done])
    exact (hload.detaches points).place

end Assembler.Built

namespace Container

open Assembler Fragment

variable {allowed : LabelKey → Prop} {keys : List LabelKey} {owed : List Label} {a : Assembler}
variable {layout : FlagLayout} {fault : Label} {tables : List Label}

theorem has_entryLabels {l : Label} (h : a.Has l) (entries : List Entry) :
    (entryLabels fault tables a entries).2.Has l := by
  induction entries generalizing a with
  | nil => exact h
  | cons entry entries ih =>
    cases entry with
    | resume k => exact ih (h.keyedLabel _)
    | child | gap => exact ih h

/-- The labels of the entries of a table are there. -/
theorem built_entryLabels (h : Built allowed keys owed a) (entries : List Entry)
    (hentries : ∀ k, .resume k ∈ entries → allowed (.step k)) (hfault : a.Has fault)
    (htables : ∀ l ∈ tables, a.Has l) :
    Built allowed keys owed (entryLabels fault tables a entries).2 ∧
      ∀ l ∈ (entryLabels fault tables a entries).1, (entryLabels fault tables a entries).2.Has l := by
  induction entries generalizing a with
  | nil => exact ⟨h, fun l hl ↦ absurd hl List.not_mem_nil⟩
  | cons entry entries ih =>
    have hrest : ∀ k, .resume k ∈ entries → allowed (.step k) := fun k hk ↦
      hentries k (List.mem_cons_of_mem _ hk)
    cases entry with
    | resume k =>
      have hk := hentries k List.mem_cons_self
      obtain ⟨hb, hl⟩ := ih (h.keyedLabel hk) hrest (hfault.keyedLabel _)
        fun l hl ↦ (htables l hl).keyedLabel _
      exact ⟨hb, List.forall_mem_cons.mpr ⟨has_entryLabels (h.has_keyedLabel _) entries, hl⟩⟩
    | child i =>
      obtain ⟨hb, hl⟩ := ih h hrest hfault htables
      refine ⟨hb, List.forall_mem_cons.mpr ⟨has_entryLabels ?_ entries, hl⟩⟩
      split
      · exact hfault
      · rw [List.getD_eq_getElem?_getD]
        cases htable : tables[i - 1]? with
        | none => exact hfault
        | some l => exact htables l (List.mem_of_getElem? htable)
    | gap =>
      obtain ⟨hb, hl⟩ := ih h hrest hfault htables
      exact ⟨hb, List.forall_mem_cons.mpr ⟨has_entryLabels hfault entries, hl⟩⟩

/-- The jump of a table, behind the test of its flag. -/
theorem built_switch (h : Built allowed keys owed a) (c : Container)
    (hentries : ∀ k, .resume k ∈ c.entries → allowed (.step k)) (hfault : a.Has fault)
    (htables : ∀ l ∈ tables, a.Has l) :
    Built allowed keys owed ((entryLabels fault tables a c.entries).2.emitAll
      [.loadStep, .tableSwitch c.offset (entryLabels fault tables a c.entries).1 fault]) := by
  obtain ⟨hb, hl⟩ := built_entryLabels h c.entries hentries hfault htables
  refine hb.emitAll fun op hop l hmem ↦ ?_
  rw [List.mem_cons, List.mem_singleton] at hop
  obtain rfl | rfl := hop
  · exact absurd hmem List.not_mem_nil
  · rcases List.mem_append.mp hmem with hmem | hmem
    · exact hl l hmem
    · rw [List.mem_singleton.mp hmem]
      exact has_entryLabels hfault _

theorem has_emitTable {l : Label} (h : a.Has l) (c : Container) :
    (emitTable layout fault tables a c).Has l := by
  unfold emitTable
  refine Has.emitAll (has_entryLabels ?_ _) _
  split
  · exact h
  · exact Has.keyedLabel (a := Assembler.emit _ _) (has_place.mpr h) _

/-- A table places its own label. -/
theorem built_emitTable {flag : Nat} {c : Container} (hflag : c.flag = some flag)
    (h : Built allowed keys (tables.getD (c.index - 1) fault :: owed) a) (hexit : allowed .exit)
    (hentries : ∀ k, .resume k ∈ c.entries → allowed (.step k)) (hfault : a.Has fault)
    (htables : ∀ l ∈ tables, a.Has l) :
    Built allowed keys owed (emitTable layout fault tables a c) := by
  unfold emitTable
  rw [hflag]
  have hhas {l : Label} (hl : a.Has l) := Has.keyedLabel (a := Assembler.emit
    (a.place (tables.getD (c.index - 1) fault)) (layout.test flag)) (has_place.mpr hl) .exit
  refine built_switch ((h.place.emitOwed [layout.test flag] ?_).emitKeyed hexit _ rfl) c hentries
    (hhas hfault) fun l hl ↦ hhas (htables l hl)
  simp [targets_test]

theorem built_newLabels (h : Built allowed keys owed a) (n : Nat) :
    Built allowed keys ((newLabels a n).1 ++ owed) (newLabels a n).2 := by
  induction n generalizing a owed with
  | zero => exact h
  | succ n ih => exact (ih h.newLabel).perm List.perm_middle

theorem length_newLabels (a : Assembler) (n : Nat) : (newLabels a n).1.length = n := by
  induction n generalizing a with
  | zero => rfl
  | succ n ih => exact congrArg (· + 1) (ih _)

/-- The tables of containers that are numbered in a row place their labels one after the other. -/
theorem built_tables {cs : List Container} {n : Nat} (hindex : cs.map index = List.range' (n + 1) cs.length)
    (hflags : ∀ c ∈ cs, c.flag.isSome) (hlen : n + cs.length = tables.length)
    (h : Built allowed keys (tables.drop n ++ owed) a) (hexit : allowed .exit)
    (hentries : ∀ c ∈ cs, ∀ k, .resume k ∈ c.entries → allowed (.step k)) (hfault : a.Has fault)
    (htables : ∀ l ∈ tables, a.Has l) :
    Built allowed keys owed (cs.foldl (emitTable layout fault tables) a) := by
  induction cs generalizing a n with
  | nil =>
    rw [List.drop_eq_nil_of_le (by simpa using hlen.ge)] at h
    exact h
  | cons c cs ih =>
    rw [List.map_cons, List.length_cons, List.range'_succ, List.cons.injEq] at hindex
    rw [List.length_cons] at hlen
    rw [List.forall_mem_cons] at hflags hentries
    obtain ⟨flag, hflag⟩ := Option.isSome_iff_exists.mp hflags.1
    have hlt : n < tables.length := by omega
    have hlabel : tables.getD (c.index - 1) fault = tables[n] := by
      rw [hindex.1, Nat.add_sub_cancel, List.getD_eq_getElem?_getD, List.getElem?_eq_getElem hlt]
      rfl
    rw [List.drop_eq_getElem_cons hlt, List.cons_append, ← hlabel] at h
    exact ih hindex.2 hflags.2 (by omega)
      (built_emitTable hflag h hexit hentries.1 hfault htables) hentries.2 (has_emitTable hfault c)
      fun l hl ↦ has_emitTable (htables l hl) c

/-- Dispatch places all labels it makes, those of keys apart. -/
theorem built_dispatch {i offset stop : Nat} {points : List SavePoint} {children : List Container}
    (hindex : (allOf children).map index = List.range' 1 (allOf children).length)
    (hflags : ∀ c ∈ allOf children, c.flag.isSome) (h : Built allowed keys owed a) (hexit : allowed .exit)
    (hentries : ∀ c ∈ (mk i none offset stop points children).all, ∀ k, .resume k ∈ c.entries →
      allowed (.step k)) :
    Built allowed keys owed ((mk i none offset stop points children).emitDispatch layout a) := by
  rw [all, List.forall_mem_cons] at hentries
  let fault := a.newLabel.1
  let tables := (newLabels a.newLabel.2 (allOf children).length).1
  have hlabels : Built allowed keys (tables ++ fault :: owed) _ :=
    built_newLabels h.newLabel (allOf children).length
  have hfault := hlabels.owes fault (by simp)
  have htables : ∀ l ∈ tables, _ := fun l hl ↦ hlabels.owes l (List.mem_append_left _ hl)
  have hfirst : Built allowed keys (tables.drop 0 ++ fault :: owed)
      (emitTable layout fault tables _ (mk i none offset stop points children)) :=
    built_switch hlabels _ hentries.1 hfault htables
  have hlen : 0 + (allOf children).length = tables.length :=
    (Nat.zero_add _).trans (length_newLabels ..).symm
  have hrest : Built allowed keys (fault :: owed)
      ((allOf children).foldl (emitTable layout fault tables) _) :=
    built_tables hindex hflags hlen hfirst hexit hentries.2 (has_emitTable hfault _)
      fun l hl ↦ has_emitTable (htables l hl) _
  exact hrest.place.emitOwed [.fault "dispatch step out of range"] (by simp [Op.targets])

end Container

namespace Fragment

open Assembler Container

/-- The containers of a fragment are numbered in a row. -/
theorem index_containers (f : Fragment) (index step : Nat) :
    (allOf (f.containers index step)).map Container.index = List.range' index f.branches.length ∧
      ∀ c ∈ allOf (f.containers index step), c.flag.isSome := by
  induction f generalizing index step with
  | ops | flagTest | flagAssign | observe => exact ⟨rfl, fun c hc ↦ absurd hc List.not_mem_nil⟩
  | append f g ih ih' | nullGuard f g ih ih' | shortCircuit _ f g ih ih' =>
    obtain ⟨hf, hflags⟩ := ih index step
    obtain ⟨hg, hflags'⟩ := ih' (index + f.branches.length) (step + f.points.length)
    rw [containers, branches, allOf_append, List.map_append, hf, hg, List.range'_append_1,
      List.length_append]
    exact ⟨rfl, List.forall_mem_append.mpr ⟨hflags, hflags'⟩⟩
  | branch op f g flag counter points ih ih' =>
    obtain ⟨hf, hflags⟩ := ih index step
    obtain ⟨hg, hflags'⟩ := ih' (index + f.branches.length + 1) (step + f.points.length)
    have hall : allOf ((branch op f g flag counter points).containers index step) =
        allOf (f.containers index step) ++ .mk (index + f.branches.length) (some flag)
          (step + f.points.length) (step + f.points.length + g.points.length) g.own
          (g.containers (index + f.branches.length + 1) (step + f.points.length)) ::
          allOf (g.containers (index + f.branches.length + 1) (step + f.points.length)) := by
      simp only [containers, allOf_append, allOf, all, List.append_nil]
    rw [hall, List.map_append, List.map_cons, hf, hg, branches, List.length_append, List.length_cons,
      ← List.range'_append_1, List.range'_succ]
    exact ⟨rfl, List.forall_mem_append.mpr ⟨hflags, List.forall_mem_cons.mpr ⟨rfl, hflags'⟩⟩⟩

/-- The tables resume only at steps of the code. -/
theorem mem_steps_of_resume {f : Fragment} {stop k : Nat} {c : Container}
    (hc : c ∈ (Container.mk 0 none 0 stop f.own (f.containers 1 1)).all) (hk : .resume k ∈ c.entries) :
    k = 0 ∨ k ∈ f.steps := by
  obtain ⟨n, -, hn⟩ := List.mem_map.mp hk
  unfold entry at hn
  split at hn
  · next hcond =>
    cases hn
    rw [Bool.or_eq_true] at hcond
    rcases hcond with hzero | hany
    · simp only [Bool.and_eq_true, beq_iff_eq] at hzero
      exact .inl hzero.1
    · obtain ⟨p, hp, hstep⟩ := List.any_eq_true.mp hany
      refine .inr (List.mem_map.mpr ⟨p, (f.perm_points 1 1).mem_iff.mp ?_, beq_iff_eq.mp hstep⟩)
      rw [all, List.mem_cons] at hc
      rcases hc with rfl | hc
      · exact List.mem_append_left _ hp
      · exact List.mem_append_right _ (List.mem_flatMap.mpr ⟨c, hc, hp⟩)
  · split at hn <;> cases hn

theorem steps_of_isPlain {f : Fragment} (h : f.isPlain) : f.steps = [] :=
  congrArg (List.map SavePoint.step) (touched_of_isPlain h).2

/-- The code names no label, and no update resumes in it. -/
def IsInert (f : Fragment) : Prop := f.isJumpless ∧ f.steps = []

theorem isInert_of_isLabelFree {f : Fragment} (h : f.isLabelFree) : f.IsInert := by
  induction f with
  | ops list => exact ⟨h, rfl⟩
  | append f g ih ih' =>
    rw [isLabelFree, Bool.and_eq_true] at h
    obtain ⟨hf, hs⟩ := ih h.1
    obtain ⟨hg, hs'⟩ := ih' h.2
    refine ⟨?_, by rw [steps_append, hs, hs']; rfl⟩
    rw [isJumpless, hf, hg]
    rfl
  | flagTest | flagAssign => exact ⟨rfl, rfl⟩
  | nullGuard | shortCircuit | observe | branch => cases h

theorem composable_isJumpless : Composable (fun f ↦ f.isJumpless) where
  plain _ h := isJumpless_of_isStraight (Layout.plain .start h).straight
  append f g hf hg := by
    show (f.isJumpless && g.isJumpless) = true
    rw [hf, hg]
    rfl
  shortCircuit _ f g hf hg := by
    show (f.isJumpless && g.isJumpless) = true
    rw [hf, hg]
    rfl

theorem composable_isInert : Composable IsInert where
  plain f h := ⟨composable_isJumpless.plain f h, steps_of_isPlain h⟩
  append f g hf hg := ⟨composable_isJumpless.append f g hf.1 hg.1,
    (steps_append f g).trans (by rw [hf.2, hg.2]; rfl)⟩
  shortCircuit op f g hf hg := ⟨composable_isJumpless.shortCircuit op f g hf.1 hg.1,
    by rw [steps_shortCircuit, hf.2, hg.2]; rfl⟩

/-- The routine of inert code alone. -/
theorem IsInert.isSealed {f : Fragment} (h : f.IsInert) (layout : Option FlagLayout) :
    ((f.emit layout .empty).emit .return).Sealed := by
  have hstart : Built (· ∈ ([] : List LabelKey)) [] [] .empty := .empty
  have hb := hstart.fragment h.1 (by simp [h.2]) layout
  rw [h.2] at hb
  exact (hb.emitOwed [.return] (by simp [Op.targets])).isSealed .nil

end Fragment

open Assembler Fragment

theorem Storage.composable_loads {P : Fragment → Prop} (hP : Composable P)
    (hstore : ∀ n, P (.op (.storeCapture n))) {ls : List Loadable} (h : ∀ l ∈ ls, P l.load) (n : Nat) :
    P (loads n ls) := by
  induction ls generalizing n with
  | nil => exact hP.plain _ rfl
  | cons l ls ih =>
    rw [List.forall_mem_cons] at h
    exact hP.append _ _ (hP.append _ _ h.1 (hstore n)) (ih h.2 (n + 1))

namespace Coercion

theorem isPlain_constant {text : String} {p : Prim} {list : List Op} (h : constant? text p = some list) :
    list.all Op.isPlain := by
  unfold constant? at h
  split at h
  case h_2 =>
    split at h <;> cases h
    rfl
  case h_7 =>
    obtain ⟨x, -, h⟩ := Option.bind_eq_some_iff.mp h
    dsimp only at h
    split at h <;> cases h
    rfl
  all_goals
    obtain ⟨x, -, rfl⟩ := Option.map_eq_some_iff.mp h
    rfl

theorem isPlain_ofText {model : TypeModel} {text : String} {target : Ty} {c : Fragment}
    (h : ofText? model text target = some c) : c.isPlain := by
  unfold ofText? at h
  split at h
  case h_1 | h_2 => cases h; rfl
  case h_3 =>
    obtain ⟨list, hlist, rfl⟩ := Option.map_eq_some_iff.mp h
    exact isPlain_constant hlist
  case h_4 =>
    obtain ⟨list, hlist, rfl⟩ := Option.map_eq_some_iff.mp h
    show (list ++ _).all Op.isPlain
    rw [List.all_append, isPlain_constant hlist]
    rfl
  case h_5 =>
    split at h <;> obtain ⟨m, -, rfl⟩ := Option.map_eq_some_iff.mp h <;> rfl
  all_goals cases h

end Coercion

namespace CompileContext

variable {cx : CompileContext} {scope : Scope} {parsed : ParsedExpr} {tree : Tree}

/-- The update routine of a rendered tree places all its labels, and the keys it has labels for are
those of its steps and of the exit. -/
theorem updateRoutine_sealed {s : Resumable} {layout : FlagLayout} {body coercion : Fragment}
    (hbody : Layout .start body s) (hcoercion : coercion.isPlain) :
    (updateRoutine s layout body coercion).Sealed ∧
      ∀ key, ((updateRoutine s layout body coercion).keyed.lookup key).isSome ↔
        key = .exit ∨ ∃ k ∈ s.steps, key = .step k := by
  let keys : List LabelKey := (0 :: body.steps).map .step ++ [LabelKey.exit]
  have hsteps : s.steps = 0 :: body.steps := by
    rw [Resumable.steps, hbody.nextStep, hbody.steps, List.range_eq_range', Nat.add_comm]
    exact List.range'_succ
  have hmem (key : LabelKey) : key ∈ keys ↔ key = .exit ∨ ∃ k ∈ s.steps, key = .step k := by
    rw [hsteps, List.mem_append, List.mem_map, List.mem_singleton, or_comm]
    exact or_congr_right (exists_congr fun k ↦ and_congr_right fun _ ↦ eq_comm)
  have hnodup : keys.Nodup := by
    have hrange : s.steps.Nodup := List.nodup_range
    have hmap := hrange.map fun _ _ h ↦ LabelKey.step.inj h
    rw [hsteps] at hmap
    refine List.nodup_append.mpr ⟨hmap, List.nodup_singleton _, fun key hkey key' hkey' ↦ ?_⟩
    rw [List.mem_singleton.mp hkey']
    obtain ⟨k, -, rfl⟩ := List.mem_map.mp hkey
    simp
  have hexit : .exit ∈ keys := (hmem _).mpr (.inl rfl)
  have hstep {k : Nat} (hk : k ∈ 0 :: body.steps) : .step k ∈ keys :=
    (hmem _).mpr (.inr ⟨k, hsteps ▸ hk, rfl⟩)
  have hroot : s.root = .mk 0 none 0 s.nextStep body.own (body.containers 1 1) := by
    rw [Resumable.root, hbody.points, hbody.children]
    rfl
  obtain ⟨hindex, hflags⟩ := body.index_containers 1 1
  have hlength : (Container.allOf (body.containers 1 1)).length = body.branches.length := by
    simpa using congrArg List.length hindex
  have hlock : Built (· ∈ keys) [] [] (Assembler.empty.emitAll [.lockAcquire]) :=
    Built.empty.emitOwed _ (by simp [Op.targets])
  have hdispatch : Built (· ∈ keys) [] []
      (s.root.emitDispatch layout (Assembler.empty.emitAll [.lockAcquire])) := by
    rw [hroot]
    exact Container.built_dispatch (hlength.symm ▸ hindex) hflags hlock hexit fun c hc k hk ↦
      hstep (List.mem_cons.mpr (mem_steps_of_resume hc hk))
  have hcode := (hdispatch.placeKey (hstep List.mem_cons_self)).fragment
    (isJumpless_of_isStraight hbody.straight) (fun k hk ↦ hstep (List.mem_cons_of_mem _ hk)) (some layout)
  have hinert := composable_isInert.plain coercion hcoercion
  have hconvert := hcode.fragment hinert.1 (by simp [hinert.2]) (some layout)
  rw [hinert.2, List.map_nil, List.append_nil] at hconvert
  have hend : Built (· ∈ keys) keys [] (updateRoutine s layout body coercion) :=
    ((hconvert.emitOwed [.publish] (by simp [Op.targets])).placeKey hexit).emitOwed
      [.lockRelease, .return] (by simp [Op.targets])
  refine ⟨hend.isSealed hnodup, fun key ↦ ?_⟩
  rw [← hmem]
  constructor
  · intro hsome
    obtain ⟨l, hl⟩ := Option.isSome_iff_exists.mp hsome
    exact (hend.known key l hl).1
  · exact hend.registered key

theorem requireText_eq {model : TypeModel} {text : String} {target : Ty} {c : Fragment}
    (h : Coercion.requireText model text target = .ok c) : Coercion.ofText? model text target = some c := by
  unfold Coercion.requireText at h
  split at h <;> cases h
  assumption

/-- The code of a tree that is evaluated once. -/
theorem composable_renderStatic {P : Fragment → Prop} (hP : Composable P)
    (hroot : tree.root.Resolved ⟨cx.model, scope, parsed, cx.fold⟩)
    (hscope : ∀ name l, scope.lookup? name = some (.bound l) → P l.load)
    {target : Option Ty} {b : StaticBinding} (h : cx.renderStatic tree target = .ok b) : P b.code := by
  have hbody : P tree.root.renderDirect := Node.direct_composable hP hscope tree.root hroot
  have hcoerced {ty : Ty} (h : (Coercion.require cx.model tree.ty ty).map
      (fun c ↦ StaticBinding.mk ty (tree.root.renderDirect ++ c)) = .ok b) : P b.code := by
    obtain ⟨c, hc, rfl⟩ := map_eq_ok h
    exact hP.append _ _ hbody (hP.plain c (Coercion.isPlain_coerce (require_eq hc)))
  unfold renderStatic at h
  split at h
  · cases h
    exact hbody
  · split at h
    · split at h
      · exact hcoerced h
      · obtain ⟨c, hc, rfl⟩ := map_eq_ok h
        exact hP.plain c (Coercion.isPlain_ofText (requireText_eq hc))
    · exact hcoerced h

/-- The code that loads what a tree reads from the host frame. -/
theorem composable_init {P : Fragment → Prop} (hP : Composable P)
    (hstore : ∀ n, P (.op (.storeCapture n)))
    (hroot : tree.root.Resolved ⟨cx.model, scope, parsed, cx.fold⟩)
    (hscope : ∀ name l, scope.lookup? name = some (.bound l) → P l.load) :
    P (tree.root.render .resumable .start).2.storage.init :=
  Storage.composable_loads hP hstore (fun l hl ↦ by
    obtain ⟨name, hname⟩ := Node.Resolved.inScope tree.root hroot .start
      (fun l hl ↦ absurd hl List.not_mem_nil) l hl
    exact hscope name l hname) 0

theorem assemble_of_sealed {a : Assembler} (h : a.Sealed) :
    a.assemble = .ok ⟨a.ops, a.positions.map (·.getD 0)⟩ := by
  rw [Assembler.assemble, h.finish]
  rfl

/-- Once a tree is typed, its code is assembled: the only obstacles are a target that cannot be
written and one that the value cannot be converted to. -/
theorem compile_total (hbuild : cx.buildTree scope parsed = .ok tree)
    (hscope : ∀ name l, scope.lookup? name = some (.bound l) → l.load.isLabelFree) :
    (∀ target b, cx.renderStatic tree target = .ok b →
      ((b.code.emit none .empty).emit .return).Sealed ∧ ∃ R, b.routine = .ok R) ∧
    (let rendered := tree.root.render .resumable .start
    let layout := rendered.2.storage.layout cx.flagCapacity
    ((rendered.2.storage.init.emit layout .empty).emit .return).Sealed ∧
      ∀ target coercion, Targets cx tree target coercion →
        let update := updateRoutine rendered.2 layout rendered.1 coercion
        update.Sealed ∧ ∀ key, (update.keyed.lookup key).isSome ↔
          key = .exit ∨ ∃ k ∈ rendered.2.steps, key = .step k) ∧
    ∀ target, (∃ b, cx.compileArtifact tree target = .ok b) ∨ ∃ t, target = some t ∧
      (cx.compileArtifact tree target = .error (Problem.readOnlyTarget t.property) ∨
        cx.compileArtifact tree target =
          .error (Problem.unconvertible (cx.model.display tree.ty) (cx.model.display t.ty))) := by
  have hroot := (Tree.build_resolved hbuild).1
  have hlayout := (tree.root.renders (Node.Resolved.isPlain tree.root hroot) .start).toLayout
  have hinert (name : String) (l : Loadable) (hl : scope.lookup? name = some (.bound l)) :
      l.load.IsInert := isInert_of_isLabelFree (hscope name l hl)
  have hinit := composable_init composable_isInert (fun _ ↦ ⟨rfl, rfl⟩) hroot hinert
  have hupdate {target : Option Ty} {coercion : Fragment} (h : Targets cx tree target coercion) :
      (updateRoutine _ ((tree.root.render .resumable .start).2.storage.layout cx.flagCapacity) _
        coercion).Sealed ∧ _ := updateRoutine_sealed hlayout h.isPlain
  refine ⟨fun target b h ↦ ?_, ⟨hinit.isSealed _, fun target coercion h ↦ hupdate h⟩, fun target ↦ ?_⟩
  · have hsealed := (composable_renderStatic composable_isInert hroot hinert h).isSealed none
    exact ⟨hsealed, _, assemble_of_sealed hsealed⟩
  · obtain ⟨coercion, ht, heq⟩ | herror := compileArtifact_cases tree target
    · left
      rw [heq, assembleArtifact, assemble_of_sealed (hupdate ht).1, assemble_of_sealed (hinit.isSealed _)]
      exact ⟨_, rfl⟩
    · exact .inr herror

end CompileContext

open Sample CompileContext in
/-- A conjunction, whose right operand has a table of its own. -/
theorem compile_total_conjunction :
    let rendered := tree.root.render .resumable .start
    let update := updateRoutine rendered.2 (rendered.2.storage.layout context.flagCapacity) rendered.1 .empty
    context.buildTree scope conjunction = .ok tree ∧ update.Sealed ∧
      (update.keyed.lookup (.step 2)).isSome ∧ (∃ b, context.compileArtifact tree none = .ok b) ∧
      ∃ R, (StaticBinding.mk tree.ty tree.root.renderDirect).routine = .ok R := by
  intro rendered update
  have hscope (name : String) (l : Loadable) (h : scope.lookup? name = some (.bound l)) :
      l.load.isLabelFree := by
    simp only [Scope.lookup?, scope, Scope.bind, Scope.empty, List.lookup_cons] at h
    split at h <;> cases h
    rfl
  obtain ⟨hstatic, ⟨-, hupdate⟩, hartifact⟩ := compile_total buildTree_eq hscope
  obtain ⟨hsealed, hkeys⟩ := hupdate none .empty rfl
  refine ⟨buildTree_eq, hsealed, (hkeys (.step 2)).mpr (.inr ⟨2, by decide +kernel, rfl⟩),
    (hartifact none).resolve_right ?_, (hstatic none _ rfl).2⟩
  rintro ⟨t, ht, -⟩
  cases ht

end LiveBinding
