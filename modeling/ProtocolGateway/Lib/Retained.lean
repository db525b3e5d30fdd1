import Mathlib.Data.List.Induction
import Mathlib.Logic.Function.Basic

/-!
# Retained messages

A broker keeps the last retained message of each topic and hands it to whoever subscribes later. An
empty retained message deletes what is kept; a message that is not retained changes nothing.

* `deliver_of_quiet` — a topic that gets no retained message keeps what it has.
* `kept_iff` — what is kept after a list of rounds was sent in one of them, and no later round sent
  a retained message on its topic.
-/

namespace Retained

universe u v

variable {T : Type u} {M : Type v}

/-- A message on a topic. -/
structure Message (T : Type u) (M : Type v) where
  topic : T
  /-- `none` for the empty payload -/
  payload : Option M
  retain : Bool

/-- The messages have no retained one on the topic. -/
def Quiet (t : T) (messages : List (Message T M)) : Prop :=
  ∀ m ∈ messages, m.retain = true → m.topic ≠ t

theorem Quiet.append {t : T} {messages messages' : List (Message T M)} (h : Quiet t messages)
    (h' : Quiet t messages') : Quiet t (messages ++ messages') := by
  intro m hm
  rcases List.mem_append.mp hm with hm | hm
  · exact h m hm
  · exact h' m hm

variable [DecidableEq T]

/-- The broker takes one message. -/
def store (kept : T → Option M) (m : Message T M) : T → Option M :=
  if m.retain then Function.update kept m.topic m.payload else kept

/-- The broker takes messages in their order. -/
def deliver (kept : T → Option M) (messages : List (Message T M)) : T → Option M :=
  messages.foldl store kept

@[simp] theorem deliver_cons (kept : T → Option M) (m : Message T M)
    (messages : List (Message T M)) :
    deliver kept (m :: messages) = deliver (store kept m) messages := rfl

theorem store_of_ne {kept : T → Option M} {m : Message T M} {t : T}
    (h : m.retain = true → m.topic ≠ t) : store kept m t = kept t := by
  unfold store
  split
  · next hretain => exact Function.update_of_ne (h hretain).symm _ _
  · rfl

/-- A topic that gets no retained message keeps what it has. -/
theorem deliver_of_quiet {t : T} {messages : List (Message T M)} (h : Quiet t messages)
    (kept : T → Option M) : deliver kept messages t = kept t := by
  induction messages generalizing kept with
  | nil => rfl
  | cons m messages ih =>
    rw [deliver_cons, ih (fun m' hm' => h m' (List.mem_cons_of_mem _ hm')),
      store_of_ne (h m List.mem_cons_self)]

/-- If all retained messages of a topic say the same, that is what is kept. -/
theorem deliver_of_forall {t : T} {content : Option M} {messages : List (Message T M)}
    (hall : ∀ m ∈ messages, m.retain = true → m.topic = t → m.payload = content)
    (hsome : ∃ m ∈ messages, m.retain = true ∧ m.topic = t) (kept : T → Option M) :
    deliver kept messages t = content := by
  induction messages generalizing kept with
  | nil =>
    obtain ⟨m, hm, -⟩ := hsome
    cases hm
  | cons m messages ih =>
    rw [deliver_cons]
    by_cases hrest : ∃ m' ∈ messages, m'.retain = true ∧ m'.topic = t
    · exact ih (fun m' hm' => hall m' (List.mem_cons_of_mem _ hm')) hrest _
    · have hquiet : Quiet t messages := fun m' hm' hretain htopic =>
        hrest ⟨m', hm', hretain, htopic⟩
      obtain ⟨m', hm', hretain, htopic⟩ := hsome
      rcases List.mem_cons.mp hm' with rfl | hm'
      · rw [deliver_of_quiet hquiet, store, if_pos hretain, htopic, Function.update_self]
        exact hall m' List.mem_cons_self hretain htopic
      · exact absurd htopic (hquiet m' hm' hretain)

/-! ## Rounds -/

section Rounds

variable {R : Type*} (messages : R → List (Message T M))

/-- What is kept after rounds of messages. -/
def deliverAll (kept : T → Option M) (rounds : List R) : T → Option M :=
  rounds.foldl (fun kept r => deliver kept (messages r)) kept

@[simp] theorem deliverAll_nil (kept : T → Option M) : deliverAll messages kept [] = kept := rfl

theorem deliverAll_append (kept : T → Option M) (rounds rounds' : List R) :
    deliverAll messages kept (rounds ++ rounds') =
      deliverAll messages (deliverAll messages kept rounds) rounds' :=
  List.foldl_append

theorem deliverAll_concat (kept : T → Option M) (rounds : List R) (r : R) :
    deliverAll messages kept (rounds ++ [r]) =
      deliver (deliverAll messages kept rounds) (messages r) := by
  rw [deliverAll_append]
  rfl

variable {messages}

/-- What a round does to a topic: it leaves it alone, or decides what is kept whatever was kept
before. -/
inductive Decides (messages : List (Message T M)) (t : T) : Option (Option M) → Prop
  | leaves (quiet : Quiet t messages) : Decides messages t none
  | sets {content : Option M} (h : ∀ kept : T → Option M, deliver kept messages t = content) :
      Decides messages t (some content)

theorem Decides.deliver_eq {t : T} {ms : List (Message T M)} {d : Option (Option M)}
    (h : Decides ms t d) (kept : T → Option M) : deliver kept ms t = d.getD (kept t) := by
  cases h with
  | leaves hquiet => exact deliver_of_quiet hquiet kept
  | sets h => exact h kept

/-- **What is kept.** If the broker starts with nothing, a message is kept on a topic exactly if
some round set it and the later rounds left the topic alone. -/
theorem kept_iff {t : T} {decision : R → Option (Option M)} {rounds : List R}
    (h : ∀ r ∈ rounds, Decides (messages r) t (decision r)) {m : M} :
    deliverAll messages (fun _ => none) rounds t = some m ↔
      ∃ before r after, rounds = before ++ r :: after ∧ decision r = some (some m) ∧
        ∀ q ∈ after, decision q = none := by
  induction rounds using List.reverseRecOn with
  | nil => simp
  | append_singleton rounds r ih =>
    have hr := h r (by simp)
    have ih := ih fun q hq => h q (List.mem_append_left _ hq)
    rw [deliverAll_concat, hr.deliver_eq]
    constructor
    · intro hkept
      cases hd : decision r with
      | none =>
        rw [hd] at hkept
        obtain ⟨before, q, after, rfl, hq, hafter⟩ := ih.mp hkept
        refine ⟨before, q, after ++ [r], by simp, hq, fun q' hq' => ?_⟩
        rcases List.mem_append.mp hq' with hq' | hq'
        · exact hafter q' hq'
        · rw [List.mem_singleton.mp hq', hd]
      | some content =>
        rw [hd] at hkept
        obtain rfl : content = some m := hkept
        exact ⟨rounds, r, [], rfl, hd, by simp⟩
    · rintro ⟨before, q, after, hsplit, hq, hafter⟩
      rcases List.eq_nil_or_concat after with rfl | ⟨after, q', rfl⟩
      · obtain ⟨-, hlast⟩ := List.append_inj' hsplit rfl
        obtain rfl : r = q := by simpa using hlast
        rw [hq]
        rfl
      · have hsplit' : rounds ++ [r] = (before ++ q :: after) ++ [q'] := by
          rw [hsplit]
          simp
        obtain ⟨rfl, hlast⟩ := List.append_inj' hsplit' rfl
        obtain rfl : r = q' := by simpa using hlast
        rw [hafter r (by simp)]
        exact ih.mpr ⟨before, q, after, rfl, hq, fun x hx => hafter x (by simp [hx])⟩

end Rounds

end Retained
