import Net29.Lib.LinkedList
import Net29.Lib.Transition
import Net29.Timers
import Mathlib.Data.Finset.Card
import Mathlib.Data.List.TakeWhile
import Mathlib.Order.RelClasses

/-!
# `sorted_list`: an ordered multiset on intrusive links

The list does not own its nodes: `next` is a member of the node, and keeps whatever was written to
it while the node is in no list. `insert` and `erase` move a pointer to a link along the list and
write through it.

* `SortedList.insert`, `SortedList.erase`, `SortedList.popFront` and the queries;
* `Represents comp value r l`: the nodes inserted and not removed are exactly `l`, in order of their
  keys;
* `ordered_multiset`: what the calls do in every state of a run;
* `Holds io s timers`: the timers of `poll_context` are such a list, with `insert_timers`,
  `popFront_timers`, `valueOr_timers` and `erase_timers`.
-/

namespace Net29

open Links Transition

/-- The links of a `sorted_list`: `head`, and `next` of every node. -/
abbrev SortedList (T : Type) := Cell T → Option T

namespace SortedList

variable {T K : Type}

section Calls

variable [DecidableEq T] (comp : K → K → Prop) [DecidableRel comp] (value : T → K)

/-- `empty`. -/
def empty (s : SortedList T) : Bool := (s .head).isNone

/-- `front`. -/
def front (s : SortedList T) : Option T := s .head

/-- `value_or`. -/
def valueOr (s : SortedList T) (v : K) : K :=
  match s .head with
  | none => v
  | some n => value n

/-- `pop_front`: the head is dereferenced without a test. -/
def popFront (s : SortedList T) : Exec (SortedList T × T) :=
  match s .head with
  | none => .error .undefined
  | some rc => .ok (Function.update s .head (s (.next rc)), rc)

/-- `pop_front_or`. -/
def popFrontOr (s : SortedList T) (v : K) : Exec (SortedList T × K) :=
  if s.empty then .ok (s, v) else s.popFront.map fun (s, n) => (s, value n)

/-- `insert`, whose loop tests its condition at most `fuel` times. -/
def insert (fuel : ℕ) (s : SortedList T) (node : T) : Option (SortedList T × T) :=
  (walk s (fun n => comp (value n) (value node)) fuel .head).map fun it =>
    let linked := Function.update s (.next node) (s it)
    (Function.update linked it (some node), node)

/-- `erase`. A null pointer is found at the end of the list, and dereferenced there. -/
def erase (fuel : ℕ) (s : SortedList T) (node : Option T) :
    Option (Exec (SortedList T × Option T)) :=
  (walk s (fun n => some n ≠ node) fuel .head).map fun it =>
    if s it = node then
      match node with
      | some n => .ok (Function.update s it (s (.next n)), some n)
      | none => .error .undefined
    else .ok (s, none)

/-- The node is put directly before the first one whose key is not less. -/
def place (l : List T) (node : T) : List T :=
  (l.takeWhile fun n => comp (value n) (value node)) ++
    node :: l.dropWhile fun n => comp (value n) (value node)

/-- No key is less than that of a node before it. -/
def SortedBy (l : List T) : Prop := l.Pairwise fun a b => ¬ comp (value b) (value a)

end Calls

variable {comp : K → K → Prop} {value : T → K} {s : SortedList T} {l l₁ l₂ : List T}
  {node n : T} {fuel : ℕ}

/-! ### Order -/

section Order

/-- Not being less is transitive. -/
theorem not_comp_trans [IsStrictWeakOrder K comp] {a b c : K} (hab : ¬ comp a b)
    (hbc : ¬ comp b c) : ¬ comp a c := by
  intro hac
  have hba : ¬ comp b a := fun h => hbc (trans_of comp h hac)
  have hcb : ¬ comp c b := fun h => hab (trans_of comp hac h)
  exact (@IsStrictWeakOrder.incomp_trans K comp _ a b c ⟨hab, hba⟩ ⟨hbc, hcb⟩).1 hac

/-- The first node has a least key. -/
theorem SortedBy.first [IsStrictWeakOrder K comp] (h : SortedBy comp value (node :: l))
    (hn : n ∈ node :: l) : ¬ comp (value n) (value node) := by
  rcases List.mem_cons.1 hn with rfl | hn
  · exact irrefl_of comp _
  · exact List.rel_of_pairwise_cons h hn

variable [DecidableRel comp]

variable (comp value) in
theorem takeWhile_append_dropWhile_lt (l : List T) (node : T) :
    (l.takeWhile fun n => comp (value n) (value node)) ++
      (l.dropWhile fun n => comp (value n) (value node)) = l :=
  List.takeWhile_append_dropWhile

theorem mem_place : n ∈ place comp value l node ↔ n = node ∨ n ∈ l := by
  conv_rhs => rw [← takeWhile_append_dropWhile_lt comp value l node]
  simp only [place, List.mem_append, List.mem_cons]
  tauto

variable [IsStrictWeakOrder K comp]

/-- What follows the place of insertion is not less than the new node. -/
theorem SortedBy.not_comp_dropWhile (h : SortedBy comp value l) :
    ∀ n ∈ l.dropWhile fun n => comp (value n) (value node), ¬ comp (value n) (value node) := by
  cases hdrop : l.dropWhile fun n => comp (value n) (value node) with
  | nil => simp
  | cons m rest =>
    have hm : ¬ comp (value m) (value node) := by
      have hhead := List.head?_dropWhile_not (fun n => decide (comp (value n) (value node))) l
      rw [hdrop] at hhead
      simpa using hhead
    have hsorted : SortedBy comp value (m :: rest) :=
      hdrop ▸ List.Pairwise.sublist (List.dropWhile_sublist _) h
    intro n hn
    rcases List.mem_cons.1 hn with rfl | hn
    · exact hm
    · exact not_comp_trans (List.rel_of_pairwise_cons hsorted hn) hm

theorem SortedBy.place (h : SortedBy comp value l) :
    SortedBy comp value (place comp value l node) := by
  have hl : SortedBy comp value
      ((l.takeWhile fun n => comp (value n) (value node)) ++
        l.dropWhile fun n => comp (value n) (value node)) := by
    rwa [takeWhile_append_dropWhile_lt]
  obtain ⟨htake, hdrop, hcross⟩ := List.pairwise_append.1 hl
  refine List.pairwise_append.2 ⟨htake, List.pairwise_cons.2 ⟨?_, hdrop⟩, ?_⟩
  · exact h.not_comp_dropWhile
  · intro a ha b hb
    rcases List.mem_cons.1 hb with rfl | hb
    · have hlt : comp (value a) (value b) := by simpa using List.mem_takeWhile_imp ha
      exact asymm_of comp hlt
    · exact hcross a ha b hb

end Order

/-! ### The calls on a list -/

theorem valueOr_eq (h : IsList s .head l) (v : K) :
    valueOr value s v = (l.head?.map value).getD v := by
  unfold valueOr
  cases l with
  | nil => rw [isList_nil.1 h]; rfl
  | cons node l => rw [h.1]; rfl

section CallsOnList

variable [DecidableEq T] [DecidableRel comp]

theorem popFront_eq (h : IsList s .head (node :: l)) :
    ∃ s', popFront s = .ok (s', node) ∧ IsList s' .head l := by
  have hl : IsList s .head ([] ++ node :: l) := h
  refine ⟨_, ?_, hl.remove⟩
  rw [popFront, h.1]
  rfl

theorem popFrontOr_eq (h : IsList s .head l) (v : K) :
    ∃ s', popFrontOr value s v = .ok (s', (l.head?.map value).getD v) ∧ IsList s' .head l.tail := by
  unfold popFrontOr empty
  cases l with
  | nil => exact ⟨s, by simp [isList_nil.1 h], h⟩
  | cons node l =>
    obtain ⟨s', hpop, hs'⟩ := popFront_eq h
    exact ⟨s', by simp [h.1, hpop, Except.map], hs'⟩

variable (comp value) in
theorem insert_returns (h : IsList s .head l) (hfuel : l.length < fuel) (node : T) :
    ∃ p, insert comp value fuel s node = some p := by
  unfold insert
  rw [walk_isList h hfuel]
  exact ⟨_, rfl⟩

/-- **Insertion** of a node that is not in the list, whatever its link is. -/
theorem insert_eq_some {p : SortedList T × T} (h : IsList s .head l) (hnode : node ∉ l)
    (hi : insert comp value fuel s node = some p) :
    p.2 = node ∧ IsList p.1 .head (place comp value l node) := by
  obtain ⟨it, hit, rfl⟩ := Option.map_eq_some_iff.1 hi
  obtain rfl := walk_eq_some h hit
  rw [← takeWhile_append_dropWhile_lt comp value l node] at h hnode
  exact ⟨rfl, h.insert hnode (by simp)⟩

theorem erase_returns (h : IsList s .head l) (hfuel : l.length < fuel) (node : T) :
    ∃ e, erase fuel s (some node) = some e := by
  unfold erase
  rw [walk_isList h hfuel]
  exact ⟨_, rfl⟩

/-- **Erasure** of a node of the list. -/
theorem erase_of_mem {e : Exec (SortedList T × Option T)} (h : IsList s .head (l₁ ++ node :: l₂))
    (he : erase fuel s (some node) = some e) :
    ∃ s', e = .ok (s', some node) ∧ IsList s' .head (l₁ ++ l₂) := by
  obtain ⟨it, hit, rfl⟩ := Option.map_eq_some_iff.1 he
  have hbefore : ∀ n ∈ l₁, decide (some n ≠ some node) = true := by
    intro n hn
    simpa using h.ne_of_mem hn
  have htake : (l₁ ++ node :: l₂).takeWhile (fun n => some n ≠ some node) = l₁ := by
    rw [List.takeWhile_append_of_pos hbefore, List.takeWhile_cons_of_neg (by simp),
      List.append_nil]
  obtain rfl := (walk_eq_some h hit).trans (by rw [htake])
  refine ⟨_, ?_, h.remove⟩
  rw [if_pos (by rw [h.endCell_eq, List.head?_cons])]

/-- **Erasure** of any other node. -/
theorem erase_of_not_mem {e : Exec (SortedList T × Option T)} (h : IsList s .head l)
    (hnode : node ∉ l) (he : erase fuel s (some node) = some e) : e = .ok (s, none) := by
  obtain ⟨it, hit, rfl⟩ := Option.map_eq_some_iff.1 he
  have htake : l.takeWhile (fun n => some n ≠ some node) = l := by
    rw [List.takeWhile_eq_self_iff]
    intro n hn
    have hne : n ≠ node := fun heq => hnode (heq ▸ hn)
    simpa using hne
  obtain rfl := (walk_eq_some h hit).trans (by rw [htake])
  rw [if_neg (by rw [h.endCell_eq_none]; simp)]

end CallsOnList

/-! ### Runs -/

/-- The links, and the nodes that were inserted and not removed since. -/
structure Usage (T : Type) where
  links : SortedList T
  members : Finset T := ∅

/-- The calls of the owner of the nodes, who may also write to the link of a node that is in no
list. -/
inductive Call (T : Type)
  | insert (node : T)
  | popFront
  | erase (node : T)
  | assign (node : T) (next : Option T)

/-- The preconditions. -/
def Usage.Allowed (u : Usage T) : Call T → Prop
  | .insert node | .assign node _ => node ∉ u.members
  | .popFront => u.members.Nonempty
  | .erase _ => True

instance (u : Usage T) [DecidableEq T] (c : Call T) : Decidable (u.Allowed c) :=
  match c with
  | .insert node | .assign node _ => inferInstanceAs (Decidable (node ∉ u.members))
  | .popFront => inferInstanceAs (Decidable u.members.Nonempty)
  | .erase _ => inferInstanceAs (Decidable True)

/-- A call that returns; `none` when its loop needs more than `fuel` rounds. -/
def Usage.step [DecidableEq T] (comp : K → K → Prop) [DecidableRel comp] (value : T → K) (fuel : ℕ)
    (u : Usage T) : Call T → Option (Usage T)
  | .insert node =>
    (insert comp value fuel u.links node).map fun p =>
      { links := p.1, members := Insert.insert node u.members }
  | .popFront =>
    u.links.popFront.toOption.map fun p => { links := p.1, members := u.members.erase p.2 }
  | .erase node =>
    ((erase fuel u.links (some node)).bind Except.toOption).map fun p =>
      { links := p.1, members := u.members.erase node }
  | .assign node next => some { u with links := Function.update u.links (.next node) next }

/-- The chain from `head` is finite and ends; it has exactly the nodes that were inserted and not
removed, each once, in the order of their keys. -/
structure Represents (comp : K → K → Prop) (value : T → K) (u : Usage T) (l : List T) : Prop where
  isList : IsList u.links .head l
  nodup : l.Nodup
  mem_iff : ∀ n, n ∈ l ↔ n ∈ u.members
  sorted : SortedBy comp value l

theorem represents_empty {comp : K → K → Prop} (h : s .head = none) :
    Represents comp value { links := s } [] where
  isList := h
  nodup := List.nodup_nil
  mem_iff n := by simp
  sorted := List.Pairwise.nil

section Runs

variable {u u' : Usage T}

theorem Represents.notMem {comp : K → K → Prop} (h : Represents comp value u l)
    (hnode : node ∉ u.members) : node ∉ l :=
  fun hn => hnode ((h.mem_iff node).1 hn)

variable [DecidableEq T]

/-- A node is taken out of the chain and of the members. -/
theorem Represents.remove {s' : SortedList T} (h : Represents comp value u (l₁ ++ node :: l₂))
    (hs' : IsList s' .head (l₁ ++ l₂)) :
    Represents comp value { links := s', members := u.members.erase node } (l₁ ++ l₂) where
  isList := hs'
  nodup := hs'.nodup
  mem_iff n := by
    have hnd := List.nodup_cons.1 (List.perm_middle.nodup_iff.1 h.nodup)
    rw [Finset.mem_erase, ← h.mem_iff, List.perm_middle.mem_iff, List.mem_cons]
    constructor
    · intro hn
      refine ⟨?_, .inr hn⟩
      rintro rfl
      exact hnd.1 hn
    · rintro ⟨hne, hn⟩
      exact hn.resolve_left hne
  sorted := List.Pairwise.sublist ((List.sublist_cons_self node l₂).append_left l₁) h.sorted

variable [DecidableRel comp]

/-- **Step.** Every call that returns leaves an ordered list of the members. -/
theorem Represents.step [IsStrictWeakOrder K comp] {c : Call T} (h : Represents comp value u l)
    (hc : u.Allowed c) (hstep : u.step comp value fuel c = some u') :
    ∃ l', Represents comp value u' l' := by
  cases c with
  | insert node =>
    obtain ⟨p, hp, rfl⟩ := Option.map_eq_some_iff.1 hstep
    obtain ⟨-, hlist⟩ := insert_eq_some h.isList (h.notMem hc) hp
    refine ⟨_, hlist, hlist.nodup, fun n => ?_, h.sorted.place⟩
    rw [mem_place, Finset.mem_insert, h.mem_iff]
  | popFront =>
    obtain ⟨p, hp, rfl⟩ := Option.map_eq_some_iff.1 hstep
    obtain ⟨first, hfirst⟩ := hc
    cases l with
    | nil => exact absurd ((h.mem_iff first).2 hfirst) List.not_mem_nil
    | cons node l =>
      obtain ⟨s', hpop, hlist⟩ := popFront_eq h.isList
      rw [hpop] at hp
      cases hp
      have hremove : Represents comp value _ ([] ++ l) := h.remove hlist
      exact ⟨l, hremove⟩
  | erase node =>
    obtain ⟨p, hp, rfl⟩ := Option.map_eq_some_iff.1 hstep
    obtain ⟨e, he, hp⟩ := Option.bind_eq_some_iff.1 hp
    by_cases hnode : node ∈ l
    · obtain ⟨l₁, l₂, rfl⟩ := List.append_of_mem hnode
      obtain ⟨s', rfl, hlist⟩ := erase_of_mem h.isList he
      cases hp
      exact ⟨_, h.remove hlist⟩
    · obtain rfl := erase_of_not_mem h.isList hnode he
      cases hp
      have hmem : node ∉ u.members := fun hn => hnode ((h.mem_iff node).2 hn)
      refine ⟨l, h.isList, h.nodup, fun n => ?_, h.sorted⟩
      rw [Finset.erase_eq_of_notMem hmem, h.mem_iff]
  | assign node next =>
    cases hstep
    exact ⟨l, h.isList.assign (h.notMem hc), h.nodup, h.mem_iff, h.sorted⟩

/-- **Runs.** -/
theorem exists_represents [IsStrictWeakOrder K comp] (hs : s .head = none)
    (h : Reaches (Usage.step comp value fuel) Usage.Allowed { links := s } u) :
    ∃ l, Represents comp value u l :=
  Reaches.invariant (I := fun u => ∃ l, Represents comp value u l) h ⟨[], represents_empty hs⟩
    fun _ _ _ ⟨_, hl⟩ hok hstep => hl.step hok hstep

/-- **`sorted_list` is an ordered multiset on intrusive links.** After any sequence of calls, with
any strict weak order, any keys and anything in the links of the nodes that are in no list, the
chain from `head` is an ordered list `l` of the members. From there every call returns, once its
loop may take more rounds than there are nodes: an insertion puts the node behind all nodes whose
keys are less and directly before the first whose key is not; the front has a least key; erasing a
member takes out that node only; and erasing any other node returns null and writes no link. -/
theorem ordered_multiset [IsStrictWeakOrder K comp] {rounds : ℕ} (hs : s .head = none)
    (h : Reaches (Usage.step comp value fuel) Usage.Allowed { links := s } u) :
    ∃ l, Represents comp value u l ∧ (l.length < rounds →
      (∀ node ∉ u.members, ∃ s' l₁ l₂,
        insert comp value rounds u.links node = some (s', node) ∧
        l = l₁ ++ l₂ ∧ IsList s' .head (l₁ ++ node :: l₂) ∧
        (∀ n ∈ l₁, comp (value n) (value node)) ∧
        ∀ n ∈ l₂.head?, ¬ comp (value n) (value node)) ∧
      (u.members.Nonempty → ∃ s' first l',
        popFront u.links = .ok (s', first) ∧ l = first :: l' ∧ IsList s' .head l' ∧
        ∀ n ∈ u.members, ¬ comp (value n) (value first)) ∧
      (∀ node ∈ u.members, ∃ s' l₁ l₂,
        erase rounds u.links (some node) = some (.ok (s', some node)) ∧
        l = l₁ ++ node :: l₂ ∧ IsList s' .head (l₁ ++ l₂)) ∧
      ∀ node ∉ u.members, erase rounds u.links (some node) = some (.ok (u.links, none))) := by
  obtain ⟨l, hl⟩ := exists_represents hs h
  refine ⟨l, hl, fun hrounds => ⟨fun node hnode => ?_, fun hne => ?_, fun node hnode => ?_,
    fun node hnode => ?_⟩⟩
  · obtain ⟨p, hp⟩ := insert_returns comp value hl.isList hrounds node
    obtain ⟨rfl, hlist⟩ := insert_eq_some hl.isList (hl.notMem hnode) hp
    refine ⟨p.1, _, _, hp, (takeWhile_append_dropWhile_lt comp value l p.2).symm, hlist, ?_, ?_⟩
    · intro n hn
      simpa using List.mem_takeWhile_imp hn
    · intro n hn
      exact hl.sorted.not_comp_dropWhile n (List.mem_of_mem_head? hn)
  · obtain ⟨first, hfirst⟩ := hne
    cases l with
    | nil => exact absurd ((hl.mem_iff first).2 hfirst) List.not_mem_nil
    | cons node l' =>
      obtain ⟨s', hpop, hlist⟩ := popFront_eq hl.isList
      refine ⟨s', node, l', hpop, rfl, hlist, fun n hn => ?_⟩
      exact hl.sorted.first ((hl.mem_iff n).2 hn)
  · obtain ⟨l₁, l₂, rfl⟩ := List.append_of_mem ((hl.mem_iff node).2 hnode)
    obtain ⟨e, he⟩ := erase_returns hl.isList hrounds node
    obtain ⟨s', rfl, hlist⟩ := erase_of_mem hl.isList he
    exact ⟨s', l₁, l₂, he, rfl, hlist⟩
  · obtain ⟨e, he⟩ := erase_returns hl.isList hrounds node
    obtain rfl := erase_of_not_mem hl.isList (hl.notMem hnode) he
    exact he

end Runs

/-- Four nodes with the keys 3, 2, 5 and 4, whose links are not null when they are inserted. -/
theorem ordered_multiset_of_calls :
    ∃ u : Usage ℕ, u.members = {0, 2, 3} ∧
      ∃ l, Represents (· < ·) (fun n => ([3, 2, 5, 4] : List ℤ).getD n 0) u l ∧
        erase 4 u.links (some 1) = some (.ok (u.links, none)) := by
  have hrun : (run (checked (Usage.step (· < ·) (fun n => ([3, 2, 5, 4] : List ℤ).getD n 0) 5)
        fun u c => decide (u.Allowed c))
      { links := Function.update (fun _ => some 9) .head none }
      [.insert 0, .insert 1, .insert 2, .insert 3, .popFront]).map Usage.members =
      some {0, 2, 3} := by decide
  obtain ⟨u, hu, hmembers⟩ := Option.map_eq_some_iff.1 hrun
  have hreach : Reaches _ Usage.Allowed _ u := reaches_of_run (fun _ _ => of_decide_eq_true) hu
  have hweak : IsStrictWeakOrder ℤ (· < ·) := isStrictWeakOrder_of_isOrderConnected
  obtain ⟨l, hl, hcalls⟩ := ordered_multiset (Function.update_self ..) hreach
  have hlength : l.length < 4 := by
    have hset : l.toFinset = {0, 2, 3} := by
      ext n
      rw [List.mem_toFinset, hl.mem_iff, hmembers]
    rw [← List.toFinset_card_of_nodup hl.nodup, hset]
    decide
  exact ⟨u, hmembers, l, hl, (hcalls hlength).2.2.2 1 (by rw [hmembers]; decide)⟩

/-! ### The timers of `poll_context` -/

section Timers

variable {io : OpId → IoBase} {s : SortedList OpId} {o : OpId} {timers : List IoBase}

/-- `d_timeouts`: the list of the timer operations whose objects are `io`. -/
def Holds (io : OpId → IoBase) (s : SortedList OpId) (timers : List IoBase) : Prop :=
  ∃ l, IsList s .head l ∧ timers = l.map io

theorem insert_timers (h : Holds io s timers) (ho : io o ∉ timers)
    {p : SortedList OpId × OpId}
    (hi : insert (· < ·) (fun n => (io n).deadline) fuel s o = some p) :
    p.2 = o ∧ Holds io p.1 (Timers.insert timers (io o)) := by
  obtain ⟨l, hl, rfl⟩ := h
  have hnode : o ∉ l := fun hn => ho (List.mem_map_of_mem hn)
  obtain ⟨hret, hlist⟩ := insert_eq_some hl hnode hi
  refine ⟨hret, _, hlist, ?_⟩
  rw [Timers.insert, List.orderedInsert_eq_take_drop, place, List.map_append, List.map_cons,
    List.takeWhile_map, List.dropWhile_map]
  simp only [Function.comp_def, Int.not_le]

theorem valueOr_timers (h : Holds io s timers) (v : Time) :
    valueOr (fun n => (io n).deadline) s v = Timers.valueOr timers v := by
  obtain ⟨l, hl, rfl⟩ := h
  rw [valueOr_eq hl]
  cases l <;> rfl

/-- The test and the `pop_front` of `process_timeout`. -/
theorem popFront_timers (h : Holds io s timers) (now : Time) :
    (∃ o s', s.front = some o ∧ (io o).deadline ≤ now ∧ popFront s = .ok (s', o) ∧
      ∃ timers', Timers.popDue? timers now = some (io o, timers') ∧ Holds io s' timers') ∨
    ((∀ o, s.front = some o → ¬ (io o).deadline ≤ now) ∧ Timers.popDue? timers now = none) := by
  obtain ⟨l, hl, rfl⟩ := h
  cases l with
  | nil =>
    refine .inr ⟨fun o ho => ?_, rfl⟩
    rw [front, isList_nil.1 hl] at ho
    cases ho
  | cons o l =>
    by_cases hdue : (io o).deadline ≤ now
    · obtain ⟨s', hpop, hlist⟩ := popFront_eq hl
      refine .inl ⟨o, s', hl.1, hdue, hpop, l.map io, ?_, l, hlist, rfl⟩
      rw [List.map_cons, Timers.popDue?, if_pos hdue]
    · refine .inr ⟨fun o' ho' => ?_, ?_⟩
      · rw [front, hl.1] at ho'
        cases ho'
        exact hdue
      · rw [List.map_cons, Timers.popDue?, if_neg hdue]

/-- `erase` finds the operation by its address. -/
theorem erase_timers (hself : ∀ o, (io o).self = o) (h : Holds io s timers)
    {e : Exec (SortedList OpId × Option OpId)} (he : erase fuel s (some o) = some e) :
    (∃ s' timers', e = .ok (s', some o) ∧ Timers.erase? timers o = some timers' ∧
      Holds io s' timers') ∨
    (e = .ok (s, none) ∧ Timers.erase? timers o = none) := by
  obtain ⟨l, hl, rfl⟩ := h
  have hany : ((l.map io).any fun x => x.self = o) = true ↔ o ∈ l := by
    simp [hself]
  by_cases hmem : o ∈ l
  · obtain ⟨l₁, l₂, rfl⟩ := List.append_of_mem hmem
    obtain ⟨s', rfl, hlist⟩ := erase_of_mem hl he
    refine .inl ⟨s', (l₁ ++ l₂).map io, rfl, ?_, _, hlist, rfl⟩
    have hbefore : ∀ x ∈ l₁.map io, ¬ decide (x.self = o) = true := by
      intro x hx
      obtain ⟨n, hn, rfl⟩ := List.mem_map.1 hx
      simpa [hself] using hl.ne_of_mem hn
    rw [Timers.erase?, if_pos (hany.2 hmem), List.map_append, List.map_cons,
      List.eraseP_append_right _ hbefore, List.eraseP_cons_of_pos (by simp [hself]),
      ← List.map_append]
  · obtain rfl := erase_of_not_mem hl hmem he
    refine .inr ⟨rfl, ?_⟩
    rw [Timers.erase?, if_neg fun hc => hmem (hany.1 hc)]

end Timers

end SortedList

end Net29
