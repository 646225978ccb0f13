import RatingService.Framework.Adjacent
import RatingService.Framework.Runs
import Mathlib.Data.Finset.Insert

/-!
# The queue under the job queue

`MPSCQueue` of `service/job_queue.cpp`: any number of threads push, one pops.
Every access to an atomic or to a node is one step, and steps of different
threads interleave. A node is known by its number in the order of their
construction, so a node that was deleted is never met again as another one.

Between the exchange and the link of a push the list is in pieces, and several
pushes may be there at a time. Seen through the pushes that are, it is one
chain: every node in it is linked to its successor, or waits for the one push
that holds both.

- §1: the queue and its steps.
- §2: the chain.
- §3: the steps of a push.
- §4: the steps of a pop.
- §5: runs.
-/

namespace RatingService

open Runs Adjacency

/-! ## §1  The queue -/

/-- `MPSCQueue::Node`. A value that was never set or is moved out is `none`. -/
structure QueueNode (T : Type) where
  next : Option ℕ := none
  value : Option T := none
deriving DecidableEq

/-- Where a thread is in `push`. -/
inductive PushPc (T : Type) where
  | idle
  /-- at the store of `newNode->next` -/
  | constructed (newNode : ℕ) (newVal : T)
  /-- at the exchange of `tail` -/
  | cleared (newNode : ℕ) (newVal : T)
  /-- at the store of `prev->next` -/
  | exchanged (newNode prev : ℕ)
deriving DecidableEq

/-- Where the consumer is in `tryPop`. -/
inductive TryPopPc where
  | idle
  /-- at the load of `head_copy->next` -/
  | loadedHead (headCopy : ℕ)
  /-- at the store of `head` -/
  | loadedNext (headCopy next : ℕ)
  /-- at the move out of `next->value` -/
  | advanced (headCopy next : ℕ)
  /-- at the `delete` -/
  | moved (headCopy : ℕ)
deriving DecidableEq

/-- `P` are the threads that push. -/
structure MpscQueue (T P : Type) where
  /-- the nodes below this number are constructed -/
  constructed : ℕ := 1
  nodes : ℕ → QueueNode T := fun _ => {}
  head : ℕ := 0
  tail : ℕ := 0
  pushes : P → PushPc T := fun _ => .idle
  pop : TryPopPc := .idle
  deleted : Finset ℕ := ∅
  /-- a ghost: the values in the order of the exchanges -/
  pushed : List T := []
  /-- a ghost: what the consumer moved out -/
  popped : List (Option T) := []

inductive MpscStep (T P : Type) where
  /-- a call of `push`; the `next` of the new node is not initialised -/
  | call (p : P) (newVal : T) (unset : Option ℕ)
  | push (p : P)
  | tryPop

namespace MpscQueue

variable {T P : Type} [DecidableEq P]

def setNode (q : MpscQueue T P) (x : ℕ) (node : QueueNode T) :
    MpscQueue T P :=
  { q with nodes := Function.update q.nodes x node }

def setPush (q : MpscQueue T P) (p : P) (pc : PushPc T) : MpscQueue T P :=
  { q with pushes := Function.update q.pushes p pc }

/-- `push`, one step. -/
def push (q : MpscQueue T P) (p : P) : Option (MpscQueue T P) :=
  match q.pushes p with
  | .idle => none
  | .constructed newNode newVal => some
      ((q.setNode newNode { q.nodes newNode with next := none }).setPush p
        (.cleared newNode newVal))
  | .cleared newNode newVal => some
      ({ q with tail := newNode, pushed := q.pushed ++ [newVal] }.setPush p
        (.exchanged newNode q.tail))
  | .exchanged newNode prev => some
      ((q.setNode prev { q.nodes prev with next := some newNode }).setPush p
        .idle)

/-- `tryPop`, one step. -/
def tryPop (q : MpscQueue T P) : MpscQueue T P :=
  match q.pop with
  | .idle => { q with pop := .loadedHead q.head }
  | .loadedHead headCopy =>
      match (q.nodes headCopy).next with
      | some next => { q with pop := .loadedNext headCopy next }
      | none => { q with pop := .idle }
  | .loadedNext headCopy next =>
      { q with head := next, pop := .advanced headCopy next }
  | .advanced headCopy next =>
      { q with
        nodes := Function.update q.nodes next
          { q.nodes next with value := none }
        popped := q.popped ++ [(q.nodes next).value]
        pop := .moved headCopy }
  | .moved headCopy =>
      { q with deleted := insert headCopy q.deleted, pop := .idle }

def step (q : MpscQueue T P) : MpscStep T P → Option (MpscQueue T P)
  | .call p newVal unset =>
      match q.pushes p with
      | .idle => some
          (({ q with constructed := q.constructed + 1 }.setNode q.constructed
            { next := unset, value := some newVal }).setPush p
            (.constructed q.constructed newVal))
      | _ => none
  | .push p => q.push p
  | .tryPop => some q.tryPop

/-- The queue is constructed with its stub, node 0. -/
def machine (T P : Type) [DecidableEq P] :
    Machine (MpscQueue T P) (MpscStep T P) where
  init q := q = {}
  step := step

/-- The node a step reads or writes. -/
def touches (q : MpscQueue T P) : MpscStep T P → Option ℕ
  | .call _ _ _ => some q.constructed
  | .push p =>
      match q.pushes p with
      | .idle | .cleared _ _ => none
      | .constructed newNode _ => some newNode
      | .exchanged _ prev => some prev
  | .tryPop =>
      match q.pop with
      | .idle | .loadedNext _ _ => none
      | .loadedHead headCopy | .moved headCopy => some headCopy
      | .advanced _ next => some next

/-- No push is between its exchange and its link. -/
def NonePending (q : MpscQueue T P) : Prop :=
  ∀ p newNode prev, q.pushes p ≠ .exchanged newNode prev

/-- The next step of `tryPop` returns false. -/
def FindsEmpty (q : MpscQueue T P) : Prop :=
  ∃ headCopy, q.pop = .loadedHead headCopy ∧ (q.nodes headCopy).next = none

end MpscQueue

/-! ## §2  The chain -/

def PushPc.newNode {T : Type} : PushPc T → Option ℕ
  | .idle => none
  | .constructed newNode _ | .cleared newNode _ | .exchanged newNode _ =>
      some newNode

namespace MpscQueue

variable {T P : Type} [DecidableEq P] {q q' : MpscQueue T P} {h : ℕ}
  {rest : List ℕ}

structure Private (q : MpscQueue T P) (chain : List ℕ) (x : ℕ) (v : T) :
    Prop where
  constructed : x < q.constructed
  live : x ∉ q.deleted
  outside : x ∉ chain
  value : (q.nodes x).value = some v

def PushOk (q : MpscQueue T P) (chain : List ℕ) : PushPc T → Prop
  | .idle => True
  | .constructed x v => q.Private chain x v
  | .cleared x v => q.Private chain x v ∧ (q.nodes x).next = none
  | .exchanged x prev => Adjacent chain prev x ∧ (q.nodes prev).next = none

/-- `y` is the successor of the chain's first node `h`, and linked to it. -/
def Follows (q : MpscQueue T P) (h : ℕ) (rest : List ℕ) (y : ℕ) : Prop :=
  rest.head? = some y ∧ (q.nodes h).next = some y

def HoldDistinct (pushes : P → PushPc T) : Prop :=
  ∀ p p' x, (pushes p).newNode = some x → (pushes p').newNode = some x → p = p'

def PopOk (q : MpscQueue T P) (h : ℕ) (rest : List ℕ) : Prop :=
  match q.pop with
  | .idle => q.head = h
  | .loadedHead x => x = h ∧ q.head = h
  | .loadedNext x y => x = h ∧ q.head = h ∧ q.Follows h rest y
  | .advanced x y => x = h ∧ q.head = y ∧ q.Follows h rest y
  | .moved x => x = h ∧ q.Follows h rest q.head

/-- The nodes whose values are not moved out, of those behind the first. -/
def unread (q : MpscQueue T P) (rest : List ℕ) : List ℕ :=
  match q.pop with
  | .moved _ => rest.tail
  | _ => rest

/-- **The chain**: its first node was the last to be popped (or is the stub),
the others follow in the order of the exchanges. -/
structure Chained (q : MpscQueue T P) (h : ℕ) (rest : List ℕ) : Prop where
  nodup : (h :: rest).Nodup
  live : ∀ x ∈ h :: rest, x < q.constructed ∧ x ∉ q.deleted
  deleted : ∀ x ∈ q.deleted, x < q.constructed
  tail : (h :: rest).getLast? = some q.tail
  tailNext : (q.nodes q.tail).next = none
  links : ∀ a b, Adjacent (h :: rest) a b → (q.nodes a).next = some b ∨
    (q.nodes a).next = none ∧ ∃ p, q.pushes p = .exchanged b a
  pushes : ∀ p, q.PushOk (h :: rest) (q.pushes p)
  distinct : HoldDistinct q.pushes
  pop : q.PopOk h rest
  values : q.pushed.map some =
    q.popped ++ (q.unread rest).map fun x => (q.nodes x).value

omit [DecidableEq P] in
theorem chained_init : ({} : MpscQueue T P).Chained 0 [] where
  nodup := List.nodup_singleton 0
  live := fun x hx => by
    rw [List.mem_singleton.mp hx]
    exact ⟨Nat.one_pos, Finset.notMem_empty 0⟩
  deleted := fun x hx => absurd hx (Finset.notMem_empty x)
  tail := rfl
  tailNext := rfl
  links := fun a b hab => absurd hab.mem_tail List.not_mem_nil
  pushes := fun _ => trivial
  distinct := fun _ _ _ hx => nomatch hx
  pop := rfl
  values := rfl

/-! ## §3  The steps of a push -/

omit [DecidableEq P] in
theorem Chained.newNode_live (hc : q.Chained h rest) {p : P} {x : ℕ}
    (hx : (q.pushes p).newNode = some x) : x < q.constructed ∧ x ∉ q.deleted := by
  have hok := hc.pushes p
  cases hpc : q.pushes p
  all_goals
    rw [hpc] at hok hx
    cases hx
  case constructed v => exact ⟨hok.constructed, hok.live⟩
  case cleared v => exact ⟨hok.1.constructed, hok.1.live⟩
  case exchanged prev => exact hc.live x (List.mem_of_mem_tail hok.1.mem_tail)

theorem HoldDistinct.update {pushes : P → PushPc T} (hd : HoldDistinct pushes)
    {p : P} {pc : PushPc T}
    (hpc : ∀ x, pc.newNode = some x →
      ∀ p', p' ≠ p → (pushes p').newNode ≠ some x) :
    HoldDistinct (Function.update pushes p pc) := by
  intro p₁ p₂ x h₁ h₂
  by_cases hp₁ : p₁ = p
  · by_cases hp₂ : p₂ = p
    · rw [hp₁, hp₂]
    · rw [hp₁, Function.update_self] at h₁
      rw [Function.update_of_ne hp₂] at h₂
      exact absurd h₂ (hpc x h₁ p₂ hp₂)
  · rw [Function.update_of_ne hp₁] at h₁
    by_cases hp₂ : p₂ = p
    · rw [hp₂, Function.update_self] at h₂
      exact absurd h₁ (hpc x h₂ p₁ hp₁)
    · rw [Function.update_of_ne hp₂] at h₂
      exact hd p₁ p₂ x h₁ h₂

omit [DecidableEq P] in
theorem PopOk.congr (hok : q.PopOk h rest) (hpop : q'.pop = q.pop)
    (hhead : q'.head = q.head) {rest' : List ℕ}
    (hfollows : ∀ y, q.Follows h rest y → q'.Follows h rest' y) :
    q'.PopOk h rest' := by
  unfold PopOk at hok ⊢
  rw [hpop, hhead]
  cases hpc : q.pop
  all_goals rw [hpc] at hok
  case idle => exact hok
  case loadedHead x => exact hok
  case loadedNext x y => exact ⟨hok.1, hok.2.1, hfollows y hok.2.2⟩
  case advanced x y => exact ⟨hok.1, hok.2.1, hfollows y hok.2.2⟩
  case moved x => exact ⟨hok.1, hfollows _ hok.2⟩

omit [DecidableEq P] in
theorem mem_of_mem_unread {x : ℕ} (hx : x ∈ q.unread rest) : x ∈ rest := by
  unfold unread at hx
  split at hx
  · exact List.mem_of_mem_tail hx
  · exact hx

/-- A push works on a node outside the chain, which no other push holds. -/
theorem Chained.outside (hc : q.Chained h rest) {x c : ℕ}
    (hx : x ∉ h :: rest) (hle : q.constructed ≤ c) {p : P}
    (hnotLinking : ∀ a b, q.pushes p ≠ .exchanged a b)
    (hother : ∀ p', p' ≠ p → (q.pushes p').newNode ≠ some x)
    {node : QueueNode T} {pc : PushPc T} (hpc : pc.newNode = some x)
    (hok : (({ q with constructed := c }.setNode x node).setPush p pc).PushOk
      (h :: rest) pc) :
    (({ q with constructed := c }.setNode x node).setPush p pc).Chained
      h rest := by
  have hnode : ∀ y, y ≠ x → (Function.update q.nodes x node) y = q.nodes y :=
    fun y hy => Function.update_of_ne hy _ _
  have hin : ∀ y ∈ h :: rest, y ≠ x := fun y hy heq => hx (heq ▸ hy)
  have htail : q.tail ∈ h :: rest := List.mem_of_getLast? hc.tail
  refine
    { nodup := hc.nodup
      live := fun y hy => ⟨(hc.live y hy).1.trans_le hle, (hc.live y hy).2⟩
      deleted := fun y hy => (hc.deleted y hy).trans_le hle
      tail := hc.tail
      tailNext := ?_
      links := ?_
      pushes := ?_
      distinct := ?_
      pop := ?_
      values := ?_ }
  · show (Function.update q.nodes x node q.tail).next = none
    rw [hnode _ (hin _ htail)]
    exact hc.tailNext
  · intro a b hab
    show (Function.update q.nodes x node a).next = some b ∨
      (Function.update q.nodes x node a).next = none ∧
        ∃ p', Function.update q.pushes p pc p' = .exchanged b a
    rw [hnode _ (hin _ hab.mem_left)]
    refine (hc.links a b hab).imp_right (And.imp_right ?_)
    rintro ⟨p', hp'⟩
    refine ⟨p', ?_⟩
    rw [Function.update_of_ne (fun heq => hnotLinking _ _ (heq ▸ hp'))]
    exact hp'
  · intro p'
    show PushOk _ _ (Function.update q.pushes p pc p')
    by_cases hp' : p' = p
    · rw [hp', Function.update_self]
      exact hok
    · rw [Function.update_of_ne hp']
      have hok' := hc.pushes p'
      have hne := hother p' hp'
      cases hpc' : q.pushes p'
      all_goals rw [hpc'] at hok' hne
      case idle => trivial
      case constructed y v =>
        refine ⟨hok'.constructed.trans_le hle, hok'.live, hok'.outside, ?_⟩
        show (Function.update q.nodes x node y).value = _
        rw [hnode y fun heq => hne (congrArg some heq)]
        exact hok'.value
      case cleared y v =>
        have hy : y ≠ x := fun heq => hne (congrArg some heq)
        refine ⟨⟨hok'.1.constructed.trans_le hle, hok'.1.live,
          hok'.1.outside, ?_⟩, ?_⟩
        · show (Function.update q.nodes x node y).value = _
          rw [hnode y hy]
          exact hok'.1.value
        · show (Function.update q.nodes x node y).next = _
          rw [hnode y hy]
          exact hok'.2
      case exchanged y prev =>
        refine ⟨hok'.1, ?_⟩
        show (Function.update q.nodes x node prev).next = _
        rw [hnode _ (hin _ hok'.1.mem_left)]
        exact hok'.2
  · refine hc.distinct.update fun y hy p' hp' => ?_
    cases hpc.symm.trans hy
    exact hother p' hp'
  · refine hc.pop.congr ?_ ?_ fun y hy => ⟨hy.1, ?_⟩
    · rfl
    · rfl
    show (Function.update q.nodes x node h).next = _
    rw [hnode _ (hin h List.mem_cons_self)]
    exact hy.2
  · refine hc.values.trans (congrArg (q.popped ++ ·) ?_)
    refine List.map_congr_left fun y hy => ?_
    show _ = (Function.update q.nodes x node y).value
    rw [hnode y (hin y (List.mem_cons_of_mem _ (mem_of_mem_unread hy)))]

theorem Chained.call (hc : q.Chained h rest) {p : P} {v : T}
    {unset : Option ℕ} (hstep : q.step (.call p v unset) = some q') :
    q'.Chained h rest := by
  rw [step] at hstep
  split at hstep
  · rename_i hidle
    cases hstep
    have hfresh : q.constructed ∉ h :: rest :=
      fun hx => lt_irrefl _ (hc.live _ hx).1
    refine hc.outside hfresh (Nat.le_succ _) ?_ ?_ rfl
      ⟨Nat.lt_succ_self _, fun hx => lt_irrefl _ (hc.deleted _ hx), hfresh, ?_⟩
    · intro a b hp
      cases hidle.symm.trans hp
    · intro p' _ hp'
      exact lt_irrefl _ (hc.newNode_live hp').1
    · show (Function.update q.nodes q.constructed _ q.constructed).value = some v
      rw [Function.update_self]
  · cases hstep

theorem Chained.clear (hc : q.Chained h rest) {p : P} {x : ℕ} {v : T}
    (hp : q.pushes p = .constructed x v) (hstep : q.push p = some q') :
    q'.Chained h rest := by
  rw [MpscQueue.push, hp] at hstep
  cases hstep
  have hok := hc.pushes p
  rw [hp] at hok
  refine hc.outside hok.outside le_rfl ?_ ?_ rfl
    ⟨⟨hok.constructed, hok.live, hok.outside, ?_⟩, ?_⟩
  · intro a b hp'
    cases hp.symm.trans hp'
  · intro p' hne hp'
    exact hne (hc.distinct p' p x hp' (by rw [hp]; rfl))
  · show (Function.update q.nodes x _ x).value = some v
    rw [Function.update_self]
    exact hok.value
  · show (Function.update q.nodes x _ x).next = none
    rw [Function.update_self]

/-- **The exchange** puts the node at the end of the chain. -/
theorem Chained.exchange (hc : q.Chained h rest) {p : P} {x : ℕ} {v : T}
    (hp : q.pushes p = .cleared x v) (hstep : q.push p = some q') :
    q'.Chained h (rest ++ [x]) := by
  rw [MpscQueue.push, hp] at hstep
  cases hstep
  have hok := hc.pushes p
  rw [hp] at hok
  obtain ⟨hprivate, hnext⟩ := hok
  have hchain : ∀ a b, Adjacent (h :: (rest ++ [x])) a b ↔
      Adjacent (h :: rest) a b ∨ a = q.tail ∧ b = x := by
    intro a b
    rw [← List.cons_append, adjacent_append_singleton, hc.tail,
      Option.some_inj, eq_comm (a := q.tail)]
  have hholds : (q.pushes p).newNode = some x := by
    rw [hp]
    rfl
  refine
    { nodup := ?_
      live := ?_
      deleted := hc.deleted
      tail := (congrArg _ (List.cons_append ..).symm).trans List.getLast?_concat
      tailNext := hnext
      links := ?_
      pushes := ?_
      distinct := ?_
      pop := ?_
      values := ?_ }
  · rw [← List.cons_append, List.nodup_append_comm]
    exact List.nodup_cons.mpr ⟨hprivate.outside, hc.nodup⟩
  · intro y hy
    rw [← List.cons_append, List.mem_append, List.mem_singleton] at hy
    rcases hy with hy | rfl
    · exact hc.live y hy
    · exact ⟨hprivate.constructed, hprivate.live⟩
  · intro a b hab
    rcases (hchain a b).mp hab with hab | ⟨rfl, rfl⟩
    · refine (hc.links a b hab).imp_right (And.imp_right ?_)
      rintro ⟨p', hp'⟩
      refine ⟨p', ?_⟩
      show Function.update q.pushes p _ p' = _
      rw [Function.update_of_ne, hp']
      rintro rfl
      cases hp.symm.trans hp'
    · refine Or.inr ⟨hc.tailNext, p, ?_⟩
      exact Function.update_self _ _ _
  · intro p'
    show PushOk _ _ (Function.update q.pushes p _ p')
    by_cases hp' : p' = p
    · rw [hp', Function.update_self]
      exact ⟨(hchain _ _).mpr (Or.inr ⟨rfl, rfl⟩), hc.tailNext⟩
    · rw [Function.update_of_ne hp']
      have hok' := hc.pushes p'
      have hother : ∀ y, (q.pushes p').newNode = some y → y ≠ x := by
        rintro y hy rfl
        exact hp' (hc.distinct p' p _ hy hholds)
      have houtside : ∀ y, (q.pushes p').newNode = some y → y ∉ h :: rest →
          y ∉ h :: (rest ++ [x]) := by
        intro y hy hnot hmem
        rw [← List.cons_append, List.mem_append, List.mem_singleton] at hmem
        exact hmem.elim hnot (hother y hy)
      cases hpc' : q.pushes p'
      all_goals rw [hpc'] at hok' houtside
      case idle => trivial
      case constructed y w =>
        exact ⟨hok'.constructed, hok'.live, houtside y rfl hok'.outside,
          hok'.value⟩
      case cleared y w =>
        exact ⟨⟨hok'.1.constructed, hok'.1.live,
          houtside y rfl hok'.1.outside, hok'.1.value⟩, hok'.2⟩
      case exchanged y prev =>
        exact ⟨(hchain _ _).mpr (Or.inl hok'.1), hok'.2⟩
  · refine hc.distinct.update fun y hy p' hp' hp'y => ?_
    cases hy
    exact hp' (hc.distinct p' p x hp'y hholds)
  · refine hc.pop.congr ?_ ?_ fun y hy => ⟨?_, hy.2⟩
    · rfl
    · rfl
    rw [List.head?_append, hy.1]
    rfl
  · have hunread : ({ q with tail := x, pushed := q.pushed ++ [v] }.setPush p
        (.exchanged x q.tail)).unread (rest ++ [x]) =
          q.unread rest ++ [x] := by
      have hpop := hc.pop
      unfold PopOk at hpop
      unfold unread
      show (match q.pop with
        | .moved _ => (rest ++ [x]).tail
        | _ => rest ++ [x]) = _
      cases hpc : q.pop
      all_goals rw [hpc] at hpop
      case moved y =>
        have hne : rest ≠ [] := by
          rintro rfl
          cases hpop.2.1
        exact List.tail_append_of_ne_nil hne
    rw [hunread, List.map_append, ← List.append_assoc]
    show (q.pushed ++ [v]).map some = _
    rw [List.map_append, hc.values]
    exact congrArg _ (congrArg (fun w => [w]) hprivate.value.symm)

/-- **The link** of a pending push closes the gap behind its predecessor. -/
theorem Chained.link (hc : q.Chained h rest) {p : P} {x prev : ℕ}
    (hp : q.pushes p = .exchanged x prev) (hstep : q.push p = some q') :
    q'.Chained h rest := by
  rw [MpscQueue.push, hp] at hstep
  cases hstep
  have hok := hc.pushes p
  rw [hp] at hok
  obtain ⟨hadj, hnext⟩ := hok
  have hne : ∀ y, y ≠ prev → (Function.update q.nodes prev
      { q.nodes prev with next := some x }) y = q.nodes y :=
    fun y hy => Function.update_of_ne hy _ _
  have hvalue : ∀ y, ((Function.update q.nodes prev
      { q.nodes prev with next := some x }) y).value = (q.nodes y).value := by
    intro y
    by_cases hy : y = prev
    · rw [hy, Function.update_self]
    · rw [hne y hy]
  refine
    { nodup := hc.nodup
      live := hc.live
      deleted := hc.deleted
      tail := hc.tail
      tailNext := ?_
      links := ?_
      pushes := ?_
      distinct := ?_
      pop := ?_
      values := ?_ }
  · show (Function.update q.nodes prev _ q.tail).next = none
    rw [hne]
    · exact hc.tailNext
    · rintro heq
      exact hadj.ne_getLast hc.nodup (heq ▸ hc.tail)
  · intro a b hab
    show (Function.update q.nodes prev _ a).next = some b ∨
      (Function.update q.nodes prev _ a).next = none ∧
        ∃ p', Function.update q.pushes p .idle p' = .exchanged b a
    by_cases ha : a = prev
    · subst ha
      rw [Function.update_self, hab.right_unique hc.nodup hadj]
      exact Or.inl rfl
    · rw [hne a ha]
      refine (hc.links a b hab).imp_right (And.imp_right ?_)
      rintro ⟨p', hp'⟩
      refine ⟨p', ?_⟩
      rw [Function.update_of_ne, hp']
      rintro rfl
      cases hp.symm.trans hp'
      exact ha rfl
  · intro p'
    show PushOk _ _ (Function.update q.pushes p .idle p')
    by_cases hp' : p' = p
    · rw [hp', Function.update_self]
      trivial
    · rw [Function.update_of_ne hp']
      have hok' := hc.pushes p'
      have hprev : ∀ y, y ∉ h :: rest → y ≠ prev :=
        fun y hy heq => hy (heq ▸ hadj.mem_left)
      cases hpc' : q.pushes p'
      all_goals rw [hpc'] at hok'
      case idle => trivial
      case constructed y w =>
        exact ⟨hok'.constructed, hok'.live, hok'.outside,
          (hvalue y).trans hok'.value⟩
      case cleared y w =>
        refine ⟨⟨hok'.1.constructed, hok'.1.live, hok'.1.outside,
          (hvalue y).trans hok'.1.value⟩, ?_⟩
        show (Function.update q.nodes prev _ y).next = none
        rw [hne y (hprev y hok'.1.outside)]
        exact hok'.2
      case exchanged y prev' =>
        refine ⟨hok'.1, ?_⟩
        show (Function.update q.nodes prev _ prev').next = none
        rw [hne]
        · exact hok'.2
        · rintro rfl
          -- one gap, one push
          cases hok'.1.right_unique hc.nodup hadj
          exact hp' (hc.distinct p' p x (by rw [hpc']; rfl) (by rw [hp]; rfl))
  · exact hc.distinct.update fun y hy => nomatch hy
  · refine hc.pop.congr ?_ ?_ fun y hy => ⟨hy.1, ?_⟩
    · rfl
    · rfl
    show (Function.update q.nodes prev _ h).next = some y
    rw [hne]
    · exact hy.2
    · rintro rfl
      cases hnext.symm.trans hy.2
  · refine hc.values.trans (congrArg (q.popped ++ ·) ?_)
    exact List.map_congr_left fun y _ => (hvalue y).symm

/-- **Every step of a push** keeps the list a chain. -/
theorem Chained.push (hc : q.Chained h rest) {p : P}
    (hstep : q.push p = some q') : ∃ rest', q'.Chained h rest' := by
  cases hp : q.pushes p with
  | idle =>
      rw [MpscQueue.push, hp] at hstep
      cases hstep
  | constructed x v => exact ⟨rest, hc.clear hp hstep⟩
  | cleared x v => exact ⟨rest ++ [x], hc.exchange hp hstep⟩
  | exchanged x prev => exact ⟨rest, hc.link hp hstep⟩

/-! ## §4  The steps of a pop -/

omit [DecidableEq P] in
theorem Chained.follows (hc : q.Chained h rest) {y : ℕ}
    (hnext : (q.nodes h).next = some y) : q.Follows h rest y := by
  refine ⟨?_, hnext⟩
  cases rest with
  | nil =>
      have htail : q.tail = h := (Option.some_inj.mp hc.tail).symm
      have hnone := hc.tailNext
      rw [htail, hnext] at hnone
      cases hnone
  | cons z rest =>
      rcases hc.links h z (Or.inl ⟨rfl, rfl⟩) with hz | ⟨hz, -⟩
      · exact hz.symm.trans hnext
      · cases hz.symm.trans hnext

omit [DecidableEq P] in
theorem Chained.consume (hc : q.Chained h rest) {pop : TryPopPc} {head : ℕ}
    (hpop : ({ q with pop := pop, head := head } : MpscQueue T P).PopOk h rest)
    (hmoved : ({ q with pop := pop, head := head } : MpscQueue T P).unread rest =
      q.unread rest) :
    ({ q with pop := pop, head := head } : MpscQueue T P).Chained h rest where
  nodup := hc.nodup
  live := hc.live
  deleted := hc.deleted
  tail := hc.tail
  tailNext := hc.tailNext
  links := hc.links
  pushes := fun p => by
    have hok := hc.pushes p
    show PushOk _ _ (q.pushes p)
    cases hpc : q.pushes p
    all_goals rw [hpc] at hok
    case idle => trivial
    case constructed y w => exact ⟨hok.1, hok.2, hok.3, hok.4⟩
    case cleared y w => exact ⟨⟨hok.1.1, hok.1.2, hok.1.3, hok.1.4⟩, hok.2⟩
    case exchanged y prev => exact hok
  distinct := hc.distinct
  pop := hpop
  values := by
    rw [hmoved]
    exact hc.values

omit [DecidableEq P] in
/-- **The move** takes the value of the first node behind the popped one. -/
theorem Chained.move (hc : q.Chained h rest) {x y : ℕ}
    (hpop : q.pop = .advanced x y) : q.tryPop.Chained h rest := by
  have hok := hc.pop
  rw [PopOk, hpop] at hok
  obtain ⟨rfl, hhead, hfollows, hnext⟩ := hok
  obtain ⟨rest, rfl⟩ : ∃ rest', rest = y :: rest' := by
    cases rest with
    | nil => cases hfollows
    | cons z rest =>
        cases hfollows
        exact ⟨rest, rfl⟩
  have hy : y ∉ rest :=
    (List.nodup_cons.mp (List.nodup_cons.mp hc.nodup).2).1
  have hlink : ∀ z, (Function.update q.nodes y
      { q.nodes y with value := none } z).next = (q.nodes z).next := by
    intro z
    by_cases hz : z = y
    · rw [hz, Function.update_self]
    · rw [Function.update_of_ne hz]
  rw [tryPop, hpop]
  refine
    { nodup := hc.nodup
      live := hc.live
      deleted := hc.deleted
      tail := hc.tail
      tailNext := (hlink _).trans hc.tailNext
      links := ?_
      pushes := ?_
      distinct := hc.distinct
      pop := ⟨rfl, congrArg some hhead.symm, (hlink x).trans (by
        rw [hnext, ← hhead])⟩
      values := ?_ }
  · intro a b hab
    show (Function.update q.nodes y _ a).next = some b ∨
      (Function.update q.nodes y _ a).next = none ∧ _
    rw [hlink]
    exact hc.links a b hab
  · intro p
    have hok := hc.pushes p
    have houtside : ∀ z, z ∉ x :: y :: rest → (Function.update q.nodes y
        { q.nodes y with value := none } z).value = (q.nodes z).value := by
      intro z hz
      rw [Function.update_of_ne]
      rintro rfl
      exact hz (List.mem_cons_of_mem _ List.mem_cons_self)
    show PushOk _ _ (q.pushes p)
    cases hpc : q.pushes p
    all_goals rw [hpc] at hok
    case idle => trivial
    case constructed z w =>
      exact ⟨hok.1, hok.2, hok.3, (houtside z hok.3).trans hok.4⟩
    case cleared z w =>
      exact ⟨⟨hok.1.1, hok.1.2, hok.1.3, (houtside z hok.1.3).trans hok.1.4⟩,
        (hlink z).trans hok.2⟩
    case exchanged z prev => exact ⟨hok.1, (hlink prev).trans hok.2⟩
  · have hvalues := hc.values
    rw [unread, hpop] at hvalues
    rw [hvalues, List.map_cons, List.append_cons]
    refine congrArg (q.popped ++ [(q.nodes y).value] ++ ·) ?_
    refine List.map_congr_left fun z hz => ?_
    show _ = (Function.update q.nodes y _ z).value
    rw [Function.update_of_ne]
    rintro rfl
    exact hy hz

omit [DecidableEq P] in
/-- **The delete** takes the first node off the chain. -/
theorem Chained.delete (hc : q.Chained h rest) {x : ℕ}
    (hpop : q.pop = .moved x) :
    ∃ rest', q.tryPop.Chained q.head rest' := by
  have hok := hc.pop
  rw [PopOk, hpop] at hok
  obtain ⟨rfl, hfollows, hnext⟩ := hok
  obtain ⟨rest, rfl⟩ : ∃ rest', rest = q.head :: rest' := by
    cases rest with
    | nil => cases hfollows
    | cons z rest =>
        cases hfollows
        exact ⟨rest, rfl⟩
  obtain ⟨hx, hnodup⟩ := List.nodup_cons.mp hc.nodup
  refine ⟨rest, ?_⟩
  rw [tryPop, hpop]
  refine
    { nodup := hnodup
      live := ?_
      deleted := ?_
      tail := hc.tail
      tailNext := hc.tailNext
      links := fun a b hab => hc.links a b (Or.inr hab)
      pushes := ?_
      distinct := hc.distinct
      pop := rfl
      values := ?_ }
  · intro y hy
    obtain ⟨hlt, hlive⟩ := hc.live y (List.mem_cons_of_mem _ hy)
    refine ⟨hlt, ?_⟩
    rw [Finset.mem_insert, not_or]
    exact ⟨fun heq => hx (heq ▸ hy), hlive⟩
  · intro y hy
    rcases Finset.mem_insert.mp hy with rfl | hy
    · exact (hc.live y List.mem_cons_self).1
    · exact hc.deleted y hy
  · intro p
    have hok := hc.pushes p
    have hprivate : ∀ z v, q.Private (x :: q.head :: rest) z v →
        ({ q with deleted := insert x q.deleted, pop := TryPopPc.idle } :
          MpscQueue T P).Private (q.head :: rest) z v := by
      intro z v hz
      refine ⟨hz.constructed, ?_, fun hmem =>
        hz.outside (List.mem_cons_of_mem _ hmem), hz.value⟩
      rw [Finset.mem_insert, not_or]
      exact ⟨fun heq => hz.outside (heq ▸ List.mem_cons_self), hz.live⟩
    show PushOk _ _ (q.pushes p)
    cases hpc : q.pushes p
    all_goals rw [hpc] at hok
    case idle => trivial
    case constructed z w => exact hprivate z w hok
    case cleared z w => exact ⟨hprivate z w hok.1, hok.2⟩
    case exchanged z prev =>
      refine ⟨?_, hok.2⟩
      -- the popped node is linked, so no push waits behind it
      rcases hok.1 with ⟨rfl, -⟩ | hadj
      · cases hok.2.symm.trans hnext
      · exact hadj
  · have hvalues := hc.values
    rw [unread, hpop] at hvalues
    exact hvalues

omit [DecidableEq P] in
/-- **Every step of the consumer** keeps the list a chain. -/
theorem Chained.tryPop (hc : q.Chained h rest) :
    ∃ h' rest', q.tryPop.Chained h' rest' := by
  have hok := hc.pop
  cases hpop : q.pop with
  | idle =>
      rw [PopOk, hpop] at hok
      rw [MpscQueue.tryPop, hpop]
      exact ⟨h, rest, hc.consume ⟨hok, hok⟩ (by rw [unread, unread, hpop])⟩
  | loadedHead x =>
      rw [PopOk, hpop] at hok
      obtain ⟨rfl, hhead⟩ := hok
      rw [MpscQueue.tryPop, hpop]
      cases hnext : (q.nodes x).next with
      | none =>
          simp only [hnext]
          exact ⟨x, rest, hc.consume hhead (by rw [unread, unread, hpop])⟩
      | some y =>
          simp only [hnext]
          exact ⟨x, rest, hc.consume ⟨rfl, hhead, hc.follows hnext⟩
            (by rw [unread, unread, hpop])⟩
  | loadedNext x y =>
      rw [PopOk, hpop] at hok
      rw [MpscQueue.tryPop, hpop]
      exact ⟨h, rest, hc.consume ⟨hok.1, rfl, hok.2.2⟩
        (by rw [unread, unread, hpop])⟩
  | advanced x y => exact ⟨h, rest, hc.move hpop⟩
  | moved x =>
      obtain ⟨rest', hc'⟩ := hc.delete hpop
      exact ⟨q.head, rest', hc'⟩

/-! ## §5  Runs -/

theorem Chained.step (hc : q.Chained h rest) {a : MpscStep T P}
    (hstep : q.step a = some q') : ∃ h' rest', q'.Chained h' rest' := by
  cases a with
  | call p newVal unset => exact ⟨h, rest, hc.call hstep⟩
  | push p => exact ⟨h, hc.push hstep⟩
  | tryPop =>
      cases hstep
      exact hc.tryPop

theorem chained_of_reachable (hreach : (machine T P).Reachable q) :
    ∃ h rest, q.Chained h rest := by
  obtain ⟨steps, hrun⟩ := hreach
  apply hrun.invariant
  · rintro _ rfl
    exact ⟨0, [], chained_init⟩
  · rintro q a q' ⟨h, rest, hc⟩ - hstep
    exact hc.step hstep

omit [DecidableEq P] in
/-- Without a pending push, a consumer that finds no link has popped all. -/
theorem Chained.empty (hc : q.Chained h rest) (hnone : q.NonePending)
    (hempty : q.FindsEmpty) : q.popped = q.pushed.map some := by
  obtain ⟨x, hpop, hnext⟩ := hempty
  have hok := hc.pop
  rw [PopOk, hpop] at hok
  obtain ⟨rfl, -⟩ := hok
  have hvalues := hc.values
  rw [unread, hpop] at hvalues
  cases rest with
  | nil => rw [hvalues, List.map_nil, List.append_nil]
  | cons z rest =>
      rcases hc.links x z (Or.inl ⟨rfl, rfl⟩) with hz | ⟨-, p, hp⟩
      · cases hz.symm.trans hnext
      · exact absurd hp (hnone p z x)

omit [DecidableEq P] in
/-- No step meets a node that was deleted. -/
theorem Chained.touches_live (hc : q.Chained h rest) {a : MpscStep T P} {x : ℕ}
    (hx : q.touches a = some x) : x ∉ q.deleted := by
  have hpop := hc.pop
  cases a with
  | call p newVal unset =>
      cases hx
      intro hmem
      exact lt_irrefl _ (hc.deleted _ hmem)
  | push p =>
      have hok := hc.pushes p
      rw [touches] at hx
      split at hx
      all_goals
        rename_i hpc
        cases hx
      · exact (hc.newNode_live (p := p) (by rw [hpc]; rfl)).2
      · rw [hpc] at hok
        exact (hc.live _ hok.1.mem_left).2
  | tryPop =>
      have hfirst := (hc.live h List.mem_cons_self).2
      rw [touches] at hx
      rw [PopOk] at hpop
      split at hx
      all_goals
        rename_i hpc
        rw [hpc] at hpop
        cases hx
      · exact hpop.1 ▸ hfirst
      · exact hpop.1 ▸ hfirst
      · exact (hc.live _ (List.mem_cons_of_mem _
          (List.mem_of_head? hpop.2.2.1))).2

/-- **The queue** keeps the order of the exchanges, loses and doubles nothing,
finds itself empty only when it is, and touches no deleted node. -/
theorem queue_sound (hreach : (machine T P).Reachable q) :
    q.popped <+: q.pushed.map some ∧
      (q.NonePending → q.FindsEmpty → q.popped = q.pushed.map some) ∧
      ∀ a x, q.touches a = some x → x ∉ q.deleted := by
  obtain ⟨h, rest, hc⟩ := chained_of_reachable hreach
  exact ⟨⟨_, hc.values.symm⟩, hc.empty, fun a x => hc.touches_live⟩

/-- Two threads push: the first to exchange is the last to link, and until then
the consumer finds nothing. -/
def lateLink : List (MpscStep ℕ Bool) :=
  [.call true 1 none, .push true, .call false 2 (some 7), .push false,
    .push false, .push true, .push true, .tryPop, .tryPop, .push false] ++
    List.replicate 7 .tryPop

def after (steps : List (MpscStep ℕ Bool)) : MpscQueue ℕ Bool :=
  ((machine ℕ Bool).schedule {} steps).getD {}

theorem lateLink_sound :
    (after lateLink).popped <+: (after lateLink).pushed.map some ∧
      ((after lateLink).NonePending → (after lateLink).FindsEmpty →
        (after lateLink).popped = (after lateLink).pushed.map some) ∧
      ∀ a x, (after lateLink).touches a = some x →
        x ∉ (after lateLink).deleted :=
  queue_sound (Machine.reachable_of_schedule lateLink rfl rfl)

example : (after lateLink).popped = [some 2] ∧ (after lateLink).pushed = [2, 1]
    ∧ (after lateLink).deleted = {0} := by
  decide

end MpscQueue

end RatingService
