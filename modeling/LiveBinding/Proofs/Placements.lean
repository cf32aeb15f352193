import LiveBinding.Proofs.Assembly
import LiveBinding.Proofs.Outcome
import Mathlib.Data.Finset.Card
import Mathlib.Data.Finset.Dedup
import Mathlib.Data.List.TakeWhile

/-!
What becomes of the calls on a routine under construction, told from the calls alone: which labels
they make, where they place them, and which placement is the first that goes wrong.
-/

namespace LiveBinding.Assembler

/-- A call on a routine under construction. -/
inductive Call where
  | emit (op : Op)
  | newLabel
  | keyedLabel (key : LabelKey)
  | place (label : Label)
  | placeKey (key : LabelKey)

namespace Call

def op? : Call → Option Op
  | emit op => some op
  | _ => none

/-- The key whose label is asked for. -/
def key? : Call → Option LabelKey
  | keyedLabel key | placeKey key => some key
  | _ => none

def isNewLabel : Call → Bool
  | newLabel => true
  | _ => false

end Call

def call (a : Assembler) : Call → Assembler
  | .emit op => a.emit op
  | .newLabel => a.newLabel.2
  | .keyedLabel key => (a.keyedLabel key).2
  | .place l => a.place l
  | .placeKey key => a.placeKey key

/-- Calls in the order in which they are made. -/
abbrev History := List Call

def ofCalls (calls : History) : Assembler := calls.foldl call .empty

theorem ofCalls_concat (calls : History) (c : Call) :
    ofCalls (calls ++ [c]) = (ofCalls calls).call c := by
  rw [ofCalls, List.foldl_append]
  rfl

/-- A label that is placed, with the numbers of instructions in front of it and of labels that there
are by then. -/
structure Placement where
  label : Label
  position : Nat
  labels : Nat

namespace History

variable (calls : History)

def ops : List Op := calls.filterMap Call.op?

def keys : List LabelKey := calls.filterMap Call.key?

/-- The number of labels that are made: one by every call for a new one, and one for every key. -/
def labels : Nat := calls.countP Call.isNewLabel + calls.keys.toFinset.card

/-- The label of a key. Labels are numbered in the order in which they are made, and that of a key
is made when it is first asked for. -/
def labelOf (key : LabelKey) : Label := ⟨labels (calls.takeWhile (·.key? != some key))⟩

/-- What a call behind others places. -/
def placement? : Call → Option Placement
  | .place l => some ⟨l, calls.ops.length, calls.labels⟩
  | .placeKey key => some ⟨calls.labelOf key, calls.ops.length, labels (calls ++ [.placeKey key])⟩
  | _ => none

def placementsBehind (before : History) : History → List Placement
  | [] => []
  | c :: calls => (before.placement? c).toList ++ placementsBehind (before ++ [c]) calls

def placements : List Placement := placementsBehind [] calls

end History

namespace Placement

/-- No label is placed before it is made, and none twice. -/
structure Sound (ps : List Placement) : Prop where
  made : ∀ p ∈ ps, p.label.index < p.labels
  once : (ps.map label).Nodup

/-- The first placement that goes wrong is one of the label `l`. -/
def FirstWrong (ps : List Placement) (l : Label) : Prop :=
  ∃ p before after, ps = before ++ p :: after ∧ p.label = l ∧ Sound before ∧ ¬Sound (before ++ [p])

variable {ps qs : List Placement} {p : Placement} {l : Label}

theorem Sound.left (h : Sound (ps ++ qs)) : Sound ps where
  made p hp := h.made p (List.mem_append_left qs hp)
  once := by
    have honce := h.once
    rw [List.map_append] at honce
    exact honce.of_append_left

theorem sound_concat :
    Sound (ps ++ [p]) ↔ Sound ps ∧ p.label.index < p.labels ∧ p.label ∉ ps.map label := by
  constructor
  · intro h
    have honce := h.once
    rw [List.map_append, List.nodup_append] at honce
    refine ⟨h.left, h.made p (by simp), fun hmem ↦ ?_⟩
    exact honce.2.2 _ hmem _ (by simp) rfl
  · rintro ⟨h, hmade, honce⟩
    refine ⟨fun q hq ↦ ?_, ?_⟩
    · rcases List.mem_append.mp hq with hq | hq
      · exact h.made q hq
      · exact List.mem_singleton.mp hq ▸ hmade
    · rw [List.map_append, List.nodup_append]
      refine ⟨h.once, List.nodup_singleton _, fun a ha b hb hab ↦ honce ?_⟩
      rw [List.map_singleton, List.mem_singleton] at hb
      exact hb ▸ hab ▸ ha

theorem FirstWrong.not_sound (h : FirstWrong ps l) : ¬Sound ps := by
  obtain ⟨p, before, after, rfl, -, -, hwrong⟩ := h
  rw [List.append_cons]
  exact fun hs ↦ hwrong hs.left

theorem firstWrong_concat :
    FirstWrong (ps ++ [p]) l ↔
      FirstWrong ps l ∨ (p.label = l ∧ Sound ps ∧ ¬Sound (ps ++ [p])) := by
  simp only [FirstWrong, exists_split_concat, exists_or, exists_eq_left']

theorem sound_or_firstWrong (ps : List Placement) : Sound ps ∨ ∃ l, FirstWrong ps l := by
  induction ps using List.reverseRecOn with
  | nil => exact .inl ⟨by simp, .nil⟩
  | append_singleton ps p ih =>
    rcases ih with hs | ⟨l, hl⟩
    · by_cases h : Sound (ps ++ [p])
      · exact .inl h
      · exact .inr ⟨p.label, firstWrong_concat.mpr (.inr ⟨rfl, hs, h⟩)⟩
    · exact .inr ⟨l, firstWrong_concat.mpr (.inl hl)⟩

/-- Where a label is placed first. -/
def positionOf (ps : List Placement) (l : Label) : Option Nat :=
  (ps.find? (·.label = l)).map position

end Placement

/-- The labels of an assembler stand where they were placed, or the first placement that went wrong
is known. -/
structure Places (ps : List Placement) (a : Assembler) : Prop where
  known : ∀ p ∈ ps, p.labels ≤ a.positions.size
  ahead : ∀ p ∈ ps, p.position ≤ a.ops.size
  sound : Placement.Sound ps → a.firstError = none ∧
    ∀ i < a.positions.size, a.positions[i]? = some (Placement.positionOf ps ⟨i⟩)
  wrong : ∀ l, Placement.FirstWrong ps l → a.firstError = some (.placedTwice l)

namespace Places

open Placement

variable {ps : List Placement} {a : Assembler} {l : Label}

theorem empty : Places [] .empty where
  known := by simp
  ahead := by simp
  sound _ := ⟨rfl, by simp [Assembler.empty]⟩
  wrong l h := by
    obtain ⟨p, before, after, h, -⟩ := h
    simp at h

theorem emit (h : Places ps a) (op : Op) : Places ps (a.emit op) where
  known := h.known
  ahead p hp := by
    rw [size_emit]
    exact (h.ahead p hp).trans (Nat.le_succ _)
  sound := h.sound
  wrong := h.wrong

theorem newLabel (h : Places ps a) : Places ps a.newLabel.2 where
  known p hp := by
    simpa [Assembler.newLabel] using (h.known p hp).trans (Nat.le_succ _)
  ahead := h.ahead
  sound hs := by
    obtain ⟨herror, hplaced⟩ := h.sound hs
    refine ⟨herror, fun i hi ↦ ?_⟩
    simp only [Assembler.newLabel, Array.size_push, Array.getElem?_push] at hi ⊢
    split
    · next hnew =>
      -- nothing placed the label that is new
      have hnone : ps.find? (·.label = ⟨i⟩) = none := by
        rw [List.find?_eq_none]
        intro p hp heq
        have hlt := hs.made p hp
        have hle := h.known p hp
        rw [of_decide_eq_true heq, hnew] at hlt
        exact Nat.lt_irrefl _ (hlt.trans_le hle)
      rw [positionOf, hnone]
      rfl
    · exact hplaced i (by omega)
  wrong := h.wrong

theorem keyedLabel (h : Places ps a) (key : LabelKey) : Places ps (a.keyedLabel key).2 := by
  unfold Assembler.keyedLabel
  split
  · exact h
  · exact ⟨h.newLabel.known, h.ahead, h.newLabel.sound, h.wrong⟩

theorem positionOf_concat (p : Placement) (l : Label) : positionOf (ps ++ [p]) l =
    (positionOf ps l).or (if p.label = l then some p.position else none) := by
  rw [positionOf, List.find?_append, Option.map_or, List.find?_singleton, positionOf]
  by_cases h : p.label = l <;> simp [h]

theorem positionOf_eq_none : positionOf ps l = none ↔ l ∉ ps.map label := by
  simp [positionOf, List.find?_eq_none]

/-- The labels that are there stay, and so does an error that is known. -/
theorem place_keeps (a : Assembler) (l : Label) :
    (a.place l).positions.size = a.positions.size ∧
      ∀ e, a.firstError = some e → (a.place l).firstError = some e := by
  unfold Assembler.place
  split
  · exact ⟨Array.size_setIfInBounds, fun e h ↦ h⟩
  · exact ⟨rfl, fun e h ↦ by rw [h]; rfl⟩

/-- A label that is open takes its position. -/
theorem place_of_open (h : a.positions[l.index]? = some none) :
    a.place l = { a with positions := a.positions.setIfInBounds l.index (some a.ops.size) } := by
  rw [Assembler.place, h]

theorem place_of_not_open (h : a.positions[l.index]? ≠ some none) :
    a.place l = { a with firstError := a.firstError.or (some (.placedTwice l)) } := by
  unfold Assembler.place
  split
  · next hopen => exact absurd hopen h
  · rfl

/-- A label is open if it is there and was not placed before. -/
theorem open_iff (h : Places ps a) (hs : Placement.Sound ps) :
    a.positions[l.index]? = some none ↔ l.index < a.positions.size ∧ l ∉ ps.map label := by
  have hplaced := (h.sound hs).2
  constructor
  · intro hopen
    have hmade : l.index < a.positions.size := (Array.getElem?_eq_some_iff.mp hopen).1
    rw [hplaced _ hmade, Option.some_inj] at hopen
    exact ⟨hmade, positionOf_eq_none.mp hopen⟩
  · rintro ⟨hmade, honce⟩
    rw [hplaced _ hmade, positionOf_eq_none.mpr honce]

theorem place (h : Places ps a) (l : Label) :
    Places (ps ++ [⟨l, a.ops.size, a.positions.size⟩]) (a.place l) where
  known p hp := by
    rw [(place_keeps a l).1]
    rcases List.mem_append.mp hp with hp | hp
    · exact h.known p hp
    · rw [List.mem_singleton.mp hp]
  ahead p hp := by
    rw [ops_place]
    rcases List.mem_append.mp hp with hp | hp
    · exact h.ahead p hp
    · rw [List.mem_singleton.mp hp]
  sound hs := by
    obtain ⟨hps, hmade, honce⟩ := sound_concat.mp hs
    obtain ⟨herror, hplaced⟩ := h.sound hps
    rw [(place_keeps a l).1, place_of_open ((h.open_iff hps).mpr ⟨hmade, honce⟩)]
    refine ⟨herror, fun i hi ↦ ?_⟩
    rw [Array.getElem?_setIfInBounds, positionOf_concat]
    split
    · next hli =>
      subst hli
      rw [positionOf_eq_none.mpr honce, if_pos rfl]
      rfl
    · next hli =>
      have hne : l ≠ ⟨i⟩ := fun heq ↦ hli (congrArg Label.index heq)
      rw [if_neg hne, Option.or_none]
      exact hplaced i hi
  wrong l' hl' := by
    rcases firstWrong_concat.mp hl' with hl' | ⟨rfl, hps, hwrong⟩
    · exact (place_keeps a l).2 _ (h.wrong l' hl')
    · have hclosed := fun hopen ↦ hwrong (sound_concat.mpr ⟨hps, (h.open_iff hps).mp hopen⟩)
      rw [place_of_not_open hclosed, (h.sound hps).1]
      rfl

/-- A label that is placed once stands where it is placed. -/
theorem positionOf_of_mem {p : Placement} (hs : Placement.Sound ps) (hp : p ∈ ps) :
    positionOf ps p.label = some p.position := by
  have hfound : (ps.find? (·.label = p.label)).isSome :=
    List.find?_isSome.mpr ⟨p, hp, decide_eq_true rfl⟩
  obtain ⟨q, hq⟩ := Option.isSome_iff_exists.mp hfound
  have hlabel : q.label = p.label := by simpa using List.find?_some hq
  obtain rfl := List.inj_on_of_nodup_map hs.once (List.mem_of_find?_eq_some hq) hp hlabel
  rw [positionOf, hq]
  rfl

/-- What comes out of an assembler. -/
theorem finish_cases (h : Places ps a) :
    (∃ l, FirstWrong ps l ∧ a.finish = .error (.placedTwice l)) ∨
    (Placement.Sound ps ∧ ∃ i < a.positions.size, ⟨i⟩ ∉ ps.map label ∧
      (∀ j < i, ⟨j⟩ ∈ ps.map label) ∧ a.finish = .error (.unplaced ⟨i⟩)) ∨
    (Placement.Sound ps ∧ (∀ i < a.positions.size, ⟨i⟩ ∈ ps.map label) ∧
      a.finish = .ok ⟨a.ops, a.positions.map (·.getD 0)⟩) := by
  rcases sound_or_firstWrong ps with hs | ⟨l, hl⟩
  · refine .inr ?_
    obtain ⟨herror, hplaced⟩ := h.sound hs
    have hopen (i : Nat) (hi : i < a.positions.size) :
        a.positions[i].isNone ↔ ⟨i⟩ ∉ ps.map label := by
      have hget := hplaced i hi
      rw [Array.getElem?_eq_getElem hi, Option.some_inj] at hget
      rw [hget, Option.isNone_iff_eq_none, positionOf_eq_none]
    cases hfind : a.positions.findIdx? (·.isNone) with
    | some i =>
      obtain ⟨hi, hnone, hsome⟩ := Array.findIdx?_eq_some_iff_getElem.mp hfind
      refine .inl ⟨hs, i, hi, (hopen i hi).mp hnone, fun j hj ↦ ?_, ?_⟩
      · by_contra hmem
        exact absurd ((hopen j (hj.trans hi)).mpr hmem) (hsome j hj)
      · rw [finish, herror, hfind]
    | none =>
      refine .inr ⟨hs, fun i hi ↦ ?_, by rw [finish, herror, hfind]⟩
      by_contra hmem
      have hnone := Array.findIdx?_eq_none_iff.mp hfind _ (Array.getElem_mem hi)
      rw [(hopen i hi).mpr hmem] at hnone
      cases hnone
  · exact .inl ⟨l, hl, by rw [finish, h.wrong l hl]⟩

/-- Every label is placed once just if every label is placed and no placement goes wrong. -/
theorem once_iff (h : Places ps a) :
    ((∀ i < a.positions.size, (ps.map label).count ⟨i⟩ = 1) ∧ ∀ p ∈ ps, p.label.index < p.labels) ↔
      Placement.Sound ps ∧ ∀ i < a.positions.size, ⟨i⟩ ∈ ps.map label := by
  constructor
  · rintro ⟨honce, hmade⟩
    refine ⟨⟨hmade, List.nodup_iff_count_le_one.mpr fun l ↦ ?_⟩, fun i hi ↦ ?_⟩
    · by_cases hmem : l ∈ ps.map label
      · obtain ⟨p, hp, rfl⟩ := List.mem_map.mp hmem
        exact (honce _ ((hmade p hp).trans_le (h.known p hp))).le
      · rw [List.count_eq_zero.mpr hmem]
        exact Nat.zero_le 1
    · exact List.count_pos_iff.mp (by rw [honce i hi]; exact Nat.one_pos)
  · rintro ⟨hs, hall⟩
    exact ⟨fun i hi ↦ List.count_eq_one_of_mem hs.once (hall i hi), hs.made⟩

theorem finish_eq_ok_iff (h : Places ps a) : (∃ R, a.finish = .ok R) ↔
    Placement.Sound ps ∧ ∀ i < a.positions.size, ⟨i⟩ ∈ ps.map label := by
  rcases h.finish_cases with ⟨l, hl, herror⟩ | ⟨hs, i, hi, hnot, -, herror⟩ | ⟨hs, hall, hok⟩
  · simp [herror, hl.not_sound]
  · simp only [herror, reduceCtorEq, exists_false, false_iff, not_and]
    exact fun _ hall ↦ hnot (hall i hi)
  · exact ⟨fun _ ↦ ⟨hs, hall⟩, fun _ ↦ ⟨_, hok⟩⟩

theorem finish_eq_placedTwice_iff (h : Places ps a) :
    a.finish = .error (.placedTwice l) ↔ FirstWrong ps l := by
  refine ⟨fun hl ↦ ?_, fun hl ↦ by rw [finish, h.wrong l hl]⟩
  rcases h.finish_cases with ⟨l', hl', herror⟩ | ⟨-, i, -, -, -, herror⟩ | ⟨-, -, hok⟩
  · rw [herror] at hl
    cases hl
    exact hl'
  · rw [herror] at hl
    cases hl
  · rw [hok] at hl
    cases hl

theorem finish_eq_unplaced_iff (h : Places ps a) : a.finish = .error (.unplaced l) ↔
    Placement.Sound ps ∧ l.index < a.positions.size ∧ l ∉ ps.map label ∧
      ∀ i < l.index, ⟨i⟩ ∈ ps.map label := by
  constructor
  · intro hl
    rcases h.finish_cases with ⟨l', -, herror⟩ | ⟨hs, i, hi, hnot, hbelow, herror⟩ | ⟨-, -, hok⟩
    · rw [herror] at hl
      cases hl
    · rw [herror] at hl
      cases hl
      exact ⟨hs, hi, hnot, hbelow⟩
    · rw [hok] at hl
      cases hl
  · rintro ⟨hs, hl, hnot, hbelow⟩
    rcases h.finish_cases with ⟨l', hl', -⟩ | ⟨-, i, -, hnot', hbelow', herror⟩ | ⟨-, hall, -⟩
    · exact absurd hs hl'.not_sound
    · have hle : l.index ≤ i := Nat.le_of_not_lt fun hlt ↦ hnot' (hbelow i hlt)
      have hge : i ≤ l.index := Nat.le_of_not_lt fun hlt ↦ hnot (hbelow' _ hlt)
      rw [herror, Nat.le_antisymm hge hle]
    · exact absurd (hall _ hl) hnot

/-- A label leads to where it is placed. -/
theorem target_eq {R : Routine} {p : Placement} (h : Places ps a) (hR : a.finish = .ok R)
    (hp : p ∈ ps) : R.target p.label = p.position := by
  have hs := (h.finish_eq_ok_iff.mp ⟨R, hR⟩).1
  have hplaced := (h.sound hs).2 _ ((hs.made p hp).trans_le (h.known p hp))
  rw [positionOf_of_mem hs hp] at hplaced
  exact (Assembles.mk hR).target_eq hplaced

end Places

namespace History

variable {calls : History} {c : Call} {key : LabelKey}

theorem keys_concat : keys (calls ++ [c]) = calls.keys ++ c.key?.toList := by
  rw [keys, List.filterMap_append, ← keys]
  cases h : c.key? <;> simp [h]

theorem ops_concat : ops (calls ++ [c]) = calls.ops ++ c.op?.toList := by
  rw [ops, List.filterMap_append, ← ops]
  cases h : c.op? <;> simp [h]

/-- A call makes a label if it asks for a new one, or for the one of a new key. -/
theorem labels_concat (calls : History) (c : Call) : labels (calls ++ [c]) =
    calls.labels + if c.isNewLabel ∨ ∃ key ∈ c.key?, key ∉ calls.keys then 1 else 0 := by
  have hcount : List.countP Call.isNewLabel (calls ++ [c]) =
      List.countP Call.isNewLabel calls + if c.isNewLabel then 1 else 0 := by
    rw [List.countP_append, List.countP_singleton]
  rw [labels, hcount, keys_concat, List.toFinset_append, labels]
  cases c with
  | emit | newLabel | place => simp [Call.isNewLabel, Call.key?, Nat.add_right_comm]
  | keyedLabel key | placeKey key =>
    have hcard : (calls.keys.toFinset ∪ [key].toFinset).card =
        calls.keys.toFinset.card + if key ∈ calls.keys then 0 else 1 := by
      rw [List.toFinset_cons, List.toFinset_nil, Finset.union_insert, Finset.union_empty,
        Finset.card_insert_eq_ite]
      simp only [List.mem_toFinset]
      split <;> rfl
    simp only [Call.key?, Option.toList_some, hcard, Call.isNewLabel]
    by_cases hmem : key ∈ calls.keys <;> simp [hmem, Nat.add_assoc]

theorem labels_mono (calls more : History) : calls.labels ≤ labels (calls ++ more) := by
  induction more using List.reverseRecOn with
  | nil => rw [List.append_nil]
  | append_singleton more c ih =>
    rw [← List.append_assoc, labels_concat]
    exact ih.trans (Nat.le_add_right _ _)

theorem all_takeWhile_iff :
    calls.takeWhile (·.key? != some key) = calls ↔ key ∉ calls.keys := by
  simp only [List.takeWhile_eq_self_iff, bne_iff_ne, keys, List.mem_filterMap, not_exists, not_and]

/-- The next label is the one of a key that nothing asked for. -/
theorem labelOf_of_notMem (h : key ∉ calls.keys) : calls.labelOf key = ⟨calls.labels⟩ := by
  rw [labelOf, all_takeWhile_iff.mpr h]

/-- A key keeps its label. -/
theorem labelOf_append (h : key ∈ calls.keys) (more : History) :
    labelOf (calls ++ more) key = calls.labelOf key := by
  have hlength : (calls.takeWhile (·.key? != some key)).length ≠ calls.length := fun heq ↦
    all_takeWhile_iff.mp ((List.takeWhile_prefix _).eq_of_length heq) h
  rw [labelOf, List.takeWhile_append, if_neg hlength, labelOf]

theorem labelOf_concat (h : c.key? = some key) :
    labelOf (calls ++ [c]) key = calls.labelOf key := by
  by_cases hmem : key ∈ calls.keys
  · exact labelOf_append hmem [c]
  · rw [labelOf_of_notMem hmem, labelOf, List.takeWhile_append, all_takeWhile_iff.mpr hmem,
      if_pos rfl]
    simp [h]

theorem labelOf_lt (h : key ∈ calls.keys) : (calls.labelOf key).index < calls.labels := by
  induction calls using List.reverseRecOn with
  | nil => simp [keys] at h
  | append_singleton calls c ih =>
    by_cases hmem : key ∈ keys calls
    · rw [labelOf_append hmem]
      exact (ih hmem).trans_le (labels_mono calls [c])
    · rw [keys_concat, List.mem_append, or_iff_right hmem, Option.mem_toList] at h
      rw [labelOf_concat h, labelOf_of_notMem hmem, labels_concat, if_pos (.inr ⟨key, h, hmem⟩)]
      exact Nat.lt_succ_self _

theorem labelOf_injective {key' : LabelKey} (h : key ∈ calls.keys) (h' : key' ∈ calls.keys)
    (heq : calls.labelOf key = calls.labelOf key') : key = key' := by
  induction calls using List.reverseRecOn with
  | nil => simp [keys] at h
  | append_singleton calls c ih =>
    -- the label of a new key is none of those that there were
    have hnew {key key' : LabelKey} (hkey : c.key? = some key) (hmem : key ∉ keys calls)
        (hmem' : key' ∈ keys calls) : labelOf (calls ++ [c]) key ≠ labelOf (calls ++ [c]) key' := by
      rw [labelOf_concat hkey, labelOf_of_notMem hmem, labelOf_append hmem']
      exact fun heq ↦ (labelOf_lt hmem').ne (congrArg Label.index heq).symm
    rw [keys_concat, List.mem_append, Option.mem_toList] at h h'
    by_cases hmem : key ∈ keys calls <;> by_cases hmem' : key' ∈ keys calls
    · rw [labelOf_append hmem, labelOf_append hmem'] at heq
      exact ih hmem hmem' heq
    · exact absurd heq.symm (hnew (h'.resolve_left hmem') hmem' hmem)
    · exact absurd heq (hnew (h.resolve_left hmem) hmem hmem')
    · exact Option.some.inj ((h.resolve_left hmem).symm.trans (h'.resolve_left hmem'))

theorem placementsBehind_concat (before : History) :
    placementsBehind before (calls ++ [c]) =
      placementsBehind before calls ++ (placement? (before ++ calls) c).toList := by
  induction calls generalizing before with
  | nil => simp [placementsBehind]
  | cons d calls ih => simp [placementsBehind, ih]

theorem placements_concat :
    placements (calls ++ [c]) = calls.placements ++ (calls.placement? c).toList :=
  placementsBehind_concat []

end History

open History

/-- An assembler holds what some calls asked for. -/
structure Obeys (calls : History) (a : Assembler) : Prop where
  ops : a.ops.toList = calls.ops
  size : a.positions.size = calls.labels
  keyed : ∀ key, a.keyed.lookup key = if key ∈ calls.keys then some (calls.labelOf key) else none

namespace Obeys

variable {calls : History} {a : Assembler} {c : Call} {key : LabelKey}

theorem empty : Obeys [] .empty := ⟨rfl, rfl, fun _ ↦ rfl⟩

theorem label_eq (h : Obeys calls a) (key : LabelKey) :
    (a.keyedLabel key).1 = calls.labelOf key := by
  have hkey := h.keyed key
  unfold Assembler.keyedLabel
  split
  · next l hl =>
    rw [hl] at hkey
    split at hkey
    · exact Option.some.inj hkey
    · cases hkey
  · next hnone =>
    rw [hnone] at hkey
    split at hkey
    · cases hkey
    · next hmem => rw [labelOf_of_notMem hmem, ← h.size]; rfl

/-- A call that asks for no key leaves the keys alone. -/
theorem keyed_of_none (h : Obeys calls a) (hc : c.key? = none) (key : LabelKey) :
    a.keyed.lookup key =
      if key ∈ keys (calls ++ [c]) then some (labelOf (calls ++ [c]) key) else none := by
  rw [h.keyed, keys_concat, hc, Option.toList_none, List.append_nil]
  split
  · next hmem => rw [labelOf_append hmem]
  · rfl

theorem emit (h : Obeys calls a) (op : Op) : Obeys (calls ++ [.emit op]) (a.emit op) where
  ops := by
    rw [ops_concat, ← h.ops]
    exact Array.toList_push
  size := by
    rw [labels_concat]
    exact h.size
  keyed := h.keyed_of_none rfl

theorem newLabel (h : Obeys calls a) : Obeys (calls ++ [.newLabel]) a.newLabel.2 where
  ops := by
    rw [ops_concat, ← h.ops]
    exact (List.append_nil _).symm
  size := by
    rw [labels_concat, ← h.size]
    exact Array.size_push _
  keyed := h.keyed_of_none rfl

/-- The label of a key is made if it is not there. -/
theorem keyedLabel (h : Obeys calls a) (hc : c.key? = some key) :
    Obeys (calls ++ [c]) (a.keyedLabel key).2 := by
  have hop : c.op? = none := by cases c <;> first | rfl | cases hc
  have hnew : c.isNewLabel = false := by cases c <;> first | rfl | cases hc
  have hkeys : keys (calls ++ [c]) = calls.keys ++ [key] := by rw [keys_concat, hc]; rfl
  refine ⟨?_, ?_, fun key' ↦ ?_⟩
  · rw [ops_keyedLabel, ops_concat, hop, h.ops]
    exact (List.append_nil _).symm
  · rw [labels_concat, hnew, hc, ← h.size]
    have hkey := h.keyed key
    unfold Assembler.keyedLabel
    split
    · next hl =>
      rw [hl] at hkey
      split at hkey
      · next hmem => simp [hmem]
      · cases hkey
    · next hl =>
      rw [hl] at hkey
      split at hkey
      · cases hkey
      · next hmem => simp [hmem, Assembler.newLabel]
  · by_cases hsame : key' = key
    · subst hsame
      rw [lookup_keyedLabel, h.label_eq, if_pos (by simp [hkeys]), labelOf_concat hc]
    · have hmem : key' ∈ keys (calls ++ [c]) ↔ key' ∈ calls.keys := by simp [hkeys, hsame]
      have hlookup : (a.keyedLabel key).2.keyed.lookup key' = a.keyed.lookup key' := by
        unfold Assembler.keyedLabel
        split
        · rfl
        · simp [List.lookup_cons, beq_false_of_ne hsame, Assembler.newLabel]
      rw [hlookup, h.keyed]
      simp only [hmem]
      split
      · next hkey => rw [labelOf_append hkey]
      · rfl

/-- To place a label changes neither the instructions nor the keys. -/
theorem place (h : Obeys calls a) (l : Label) : Obeys calls (a.place l) := by
  unfold Assembler.place
  split
  · exact ⟨h.ops, by rw [← h.size]; exact Array.size_setIfInBounds, h.keyed⟩
  · exact ⟨h.ops, h.size, h.keyed⟩

theorem call (h : Obeys calls a) : (c : Call) → Obeys (calls ++ [c]) (a.call c)
  | .emit op => h.emit op
  | .newLabel => h.newLabel
  | .keyedLabel _ => h.keyedLabel rfl
  | .placeKey _ => (h.keyedLabel rfl).place _
  | .place l => by
    have hplace := h.place l
    refine ⟨?_, ?_, hplace.keyed_of_none rfl⟩
    · rw [ops_concat, ← hplace.ops]
      exact (List.append_nil _).symm
    · rw [labels_concat]
      exact hplace.size

end Obeys

theorem obeys_ofCalls (calls : History) : Obeys calls (ofCalls calls) := by
  induction calls using List.reverseRecOn with
  | nil => exact .empty
  | append_singleton calls c ih => exact ofCalls_concat calls c ▸ ih.call c

/-- Every call keeps the account of what is placed where. -/
theorem places_ofCalls (calls : History) : Places calls.placements (ofCalls calls) := by
  induction calls using List.reverseRecOn with
  | nil => exact .empty
  | append_singleton calls c ih =>
    have hbefore := obeys_ofCalls calls
    have hops : (ofCalls calls).ops.size = (History.ops calls).length := by
      rw [← hbefore.ops, Array.length_toList]
    rw [placements_concat, ofCalls_concat]
    cases c with
    | emit op => exact (List.append_nil (placements calls)).symm ▸ ih.emit op
    | newLabel => exact (List.append_nil (placements calls)).symm ▸ ih.newLabel
    | keyedLabel key => exact (List.append_nil (placements calls)).symm ▸ ih.keyedLabel key
    | place l =>
      have hplaced := ih.place l
      rw [hops, hbefore.size] at hplaced
      exact hplaced
    | placeKey key =>
      have hkey := hbefore.keyedLabel (c := .placeKey key) rfl
      have hplaced := (ih.keyedLabel key).place ((ofCalls calls).keyedLabel key).1
      rw [ops_keyedLabel, hops, hkey.size, hbefore.label_eq] at hplaced
      show Places _ (((ofCalls calls).keyedLabel key).2.place ((ofCalls calls).keyedLabel key).1)
      rw [hbefore.label_eq]
      exact hplaced

/-- Labels are resolved exactly. Every call hands out the label that the calls before it entail,
two keys have one label only if they are the same key, and a routine comes out just if every label
that is made is placed once and no label is placed that is not made by then. A label then leads to
the instruction behind its placement. Otherwise the first placement that goes wrong is reported, and
if there is none the first label that is never placed. -/
theorem labels_resolve (calls : History) :
    (∀ before c after, calls = before ++ c :: after →
      (ofCalls before).newLabel.1 = ⟨labels before⟩ ∧
      ∀ key ∈ c.key?, ((ofCalls before).keyedLabel key).1 = calls.labelOf key) ∧
    (∀ key ∈ calls.keys, ∀ key' ∈ calls.keys,
      calls.labelOf key = calls.labelOf key' ↔ key = key') ∧
    ((∃ R, (ofCalls calls).finish = .ok R) ↔
      (∀ i < calls.labels, (calls.placements.map Placement.label).count ⟨i⟩ = 1) ∧
        ∀ p ∈ calls.placements, p.label.index < p.labels) ∧
    (∀ R, (ofCalls calls).finish = .ok R → R.ops.toList = calls.ops ∧
      ∀ p ∈ calls.placements, R.target p.label = p.position ∧ p.position ≤ R.size) ∧
    (∀ l, (ofCalls calls).finish = .error (.placedTwice l) ↔
      Placement.FirstWrong calls.placements l) ∧
    ∀ l, (ofCalls calls).finish = .error (.unplaced l) ↔
      Placement.Sound calls.placements ∧ l.index < calls.labels ∧
        l ∉ calls.placements.map Placement.label ∧
        ∀ i < l.index, ⟨i⟩ ∈ calls.placements.map Placement.label := by
  have hobeys := obeys_ofCalls calls
  have hplaces := places_ofCalls calls
  rw [← hobeys.size]
  refine ⟨fun before c after heq ↦ ⟨?_, fun key hkey ↦ ?_⟩, fun key hmem key' hmem' ↦ ?_,
    hplaces.finish_eq_ok_iff.trans hplaces.once_iff.symm, fun R hR ↦ ⟨?_, fun p hp ↦ ?_⟩,
    fun l ↦ hplaces.finish_eq_placedTwice_iff, fun l ↦ hplaces.finish_eq_unplaced_iff⟩
  · exact congrArg Label.mk (obeys_ofCalls before).size
  · have hmem : key ∈ keys (before ++ [c]) := by
      rw [keys_concat]
      exact List.mem_append_right _ (Option.mem_toList.mpr hkey)
    have hsplit : calls = before ++ [c] ++ after := heq.trans (List.append_cons ..)
    rw [(obeys_ofCalls before).label_eq, ← labelOf_concat hkey, hsplit, labelOf_append hmem]
  · exact ⟨labelOf_injective hmem hmem', fun h ↦ h ▸ rfl⟩
  · rw [(Assembles.mk hR).routine_eq]
    exact hobeys.ops
  · refine ⟨hplaces.target_eq hR hp, ?_⟩
    rw [(Assembles.mk hR).routine_eq]
    exact hplaces.ahead p hp

end LiveBinding.Assembler
