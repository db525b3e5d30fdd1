import ProtocolGateway.Lib.Search
import ProtocolGateway.Words

/-!
# Frames of a serial port

`serial_frame_client` finds messages between a start and an end marker in the bytes of a serial
port. `drain` takes the complete frames out of its buffer, `readThread` does so after every read,
and `read` until it has the frames asked for.

The end marker is searched from the beginning of the start marker on. So a frame is found as it was
sent if its end marker does not begin any earlier, in the start marker or across it (`Intact`).
`frames_delivered` says that this is what it takes, together with the size limit and a start marker
that does not overlap itself, for every split of the bytes into reads.
-/

namespace ProtocolGateway

open Search

namespace SerialFrame

/-! ## The reader -/

/-- The markers of a client. Neither is empty. -/
structure Markers where
  soi : List Byte
  eoi : List Byte
  soi_ne : soi ≠ []
  eoi_ne : eoi ≠ []

/-- `max_frame_size`. -/
def defaultMaxFrameSize : Nat := 256

variable (m : Markers) (maxFrameSize : Nat)

/-- The buffer behind a frame is shorter. -/
theorem length_drop_lt {buffer : List Byte} {i j : Nat}
    (h : find m.eoi (buffer.drop i) = some j) :
    ((buffer.drop i).drop (j + m.eoi.length)).length < buffer.length := by
  obtain ⟨before, rest, heq, rfl, -⟩ := exists_of_find m.eoi_ne h
  have hlength := congrArg List.length heq
  have hpos := List.length_pos_iff.mpr m.eoi_ne
  rw [List.length_append, List.length_append, List.length_drop] at hlength
  rw [List.length_drop, List.length_drop]
  omega

/-- The loop over the frames of a buffer: the frames, and what stays in the buffer. -/
def drain (buffer : List Byte) : List (List Byte) × List Byte :=
  match find m.soi buffer with
  | none => ([], buffer)
  | some soiIndex =>
    match _h : find m.eoi (buffer.drop soiIndex) with
    | some eoiIndex =>
      -- `buffer[len(soi):eoi_index]` is empty if the end marker begins inside the start marker
      let frame := ((buffer.drop soiIndex).take eoiIndex).drop m.soi.length
      let rest := drain ((buffer.drop soiIndex).drop (eoiIndex + m.eoi.length))
      (frame :: rest.1, rest.2)
    | none =>
      if maxFrameSize < (buffer.drop soiIndex).length then ([], []) else ([], buffer.drop soiIndex)
termination_by buffer.length
decreasing_by exact length_drop_lt m _h

/-- One round of `read_thread`. A read that times out gives no data. -/
def receive (buffer data : List Byte) : List (List Byte) × List Byte :=
  if data = [] then ([], buffer) else drain m maxFrameSize (buffer ++ data)

/-- `read_thread`: the frames it hands to `on_message`, and its buffer. -/
def readThread (buffer : List Byte) : List (List Byte) → List (List Byte) × List Byte
  | [] => ([], buffer)
  | data :: reads =>
    let round := receive m maxFrameSize buffer data
    let rest := readThread round.2 reads
    (round.1 ++ rest.1, rest.2)

/-- The frames that are delivered for a list of reads. -/
def delivered (reads : List (List Byte)) : List (List Byte) :=
  (readThread m maxFrameSize [] reads).1

/-- The loop of `read` over the frames of a buffer: the frames it has, and what stays in the buffer
if they are not as many as were asked for. -/
def collect (frames : Nat) (pending : List (List Byte)) (buffer : List Byte) :
    List (List Byte) × Option (List Byte) :=
  match find m.soi buffer with
  | none => (pending, some buffer)
  | some soiIndex =>
    match _h : find m.eoi (buffer.drop soiIndex) with
    | some eoiIndex =>
      let pending := pending ++ [((buffer.drop soiIndex).take eoiIndex).drop m.soi.length]
      if pending.length = frames then (pending, none)
      else collect frames pending ((buffer.drop soiIndex).drop (eoiIndex + m.eoi.length))
    | none =>
      (pending, some (if maxFrameSize < (buffer.drop soiIndex).length then []
        else buffer.drop soiIndex))
termination_by buffer.length
decreasing_by exact length_drop_lt m _h

/-- `read`, over the reads before its timeout. -/
def read (frames : Nat) (pending : List (List Byte)) (buffer : List Byte) :
    List (List Byte) → List (List Byte)
  | [] => pending
  | data :: reads =>
    if data = [] then read frames pending buffer reads
    else
      match collect m maxFrameSize frames pending (buffer ++ data) with
      | (pending, none) => pending
      | (pending, some buffer) => read frames pending buffer reads

/-! ## What was sent -/

/-- A stream of framed payloads, with any bytes free of the start marker between them. -/
inductive Carries : List (List Byte) → List Byte → Prop
  | tail {gap : List Byte} : ¬m.soi <:+: gap → Carries [] gap
  | frame {gap payload : List Byte} {payloads : List (List Byte)} {stream : List Byte} :
    ¬m.soi <:+: gap → Carries payloads stream →
      Carries (payload :: payloads) (gap ++ (m.soi ++ (payload ++ (m.eoi ++ stream))))

/-- Streams of payloads of a kind are delivered as they were sent, however they are split. -/
def DeliversAll (kind : List Byte → Prop) : Prop :=
  ∀ payloads stream reads, (∀ payload ∈ payloads, kind payload) → Carries m payloads stream →
    reads.flatten = stream → delivered m maxFrameSize reads = payloads

/-- A payload that is found as it was sent. -/
structure Intact (payload : List Byte) : Prop where
  soi_unbordered : Unbordered m.soi
  ends : FirstAt m.eoi (m.soi ++ payload)
  size : m.soi.length + payload.length + m.eoi.length ≤ maxFrameSize + 1

variable {m maxFrameSize}

/-! ## One buffer -/

theorem drain_of_none {buffer : List Byte} (h : find m.soi buffer = none) :
    drain m maxFrameSize buffer = ([], buffer) := by
  rw [drain, h]

@[simp] theorem drain_nil : drain m maxFrameSize [] = ([], []) :=
  drain_of_none (by rw [find_eq_none_iff, List.infix_nil]; exact m.soi_ne)

/-- A buffer with a whole frame, -/
theorem drain_of_end {gap body rest tail : List Byte} (hgap : FirstAt m.soi gap)
    (hbody : FirstAt m.eoi body) (heq : m.soi ++ tail = body ++ (m.eoi ++ rest)) :
    drain m maxFrameSize (gap ++ (m.soi ++ tail)) =
      (body.drop m.soi.length :: (drain m maxFrameSize rest).1, (drain m maxFrameSize rest).2) := by
  have hfind : find m.eoi (m.soi ++ tail) = some body.length := by
    rw [heq]
    exact find_append m.eoi_ne hbody
  rw [drain, find_append m.soi_ne hgap]
  dsimp only
  rw [List.drop_left]
  split
  · next j hj =>
    obtain rfl := Option.some.inj (hfind.symm.trans hj)
    have hdrop : (m.soi ++ tail).drop (body.length + m.eoi.length) = rest := by
      rw [heq, ← List.append_assoc]
      exact List.drop_left' (by rw [List.length_append])
    rw [hdrop, heq, List.take_left]
  · next hj =>
    rw [hfind] at hj
    cases hj

/-- and one with the beginning of a frame. -/
theorem drain_of_open {gap tail : List Byte} (hgap : FirstAt m.soi gap)
    (hopen : ¬m.eoi <:+: m.soi ++ tail) : drain m maxFrameSize (gap ++ (m.soi ++ tail)) =
      ([], if maxFrameSize < (m.soi ++ tail).length then [] else m.soi ++ tail) := by
  rw [drain, find_append m.soi_ne hgap]
  dsimp only
  rw [List.drop_left]
  split
  · next j hj =>
    rw [find_eq_none_iff.mpr hopen] at hj
    cases hj
  · split <;> rfl

/-- `read` goes through a buffer like the thread does. -/
theorem collect_of_end {gap body rest tail : List Byte} (frames : Nat)
    (pending : List (List Byte)) (hgap : FirstAt m.soi gap) (hbody : FirstAt m.eoi body)
    (heq : m.soi ++ tail = body ++ (m.eoi ++ rest)) :
    collect m maxFrameSize frames pending (gap ++ (m.soi ++ tail)) =
      if (pending ++ [body.drop m.soi.length]).length = frames then
        (pending ++ [body.drop m.soi.length], none)
      else collect m maxFrameSize frames (pending ++ [body.drop m.soi.length]) rest := by
  have hfind : find m.eoi (m.soi ++ tail) = some body.length := by
    rw [heq]
    exact find_append m.eoi_ne hbody
  have hdrop : (m.soi ++ tail).drop (body.length + m.eoi.length) = rest := by
    rw [heq, ← List.append_assoc]
    exact List.drop_left' (by rw [List.length_append])
  have htake : (m.soi ++ tail).take body.length = body := by
    rw [heq, List.take_left]
  rw [collect, find_append m.soi_ne hgap]
  dsimp only
  rw [List.drop_left]
  split
  · next j hj =>
    obtain rfl := Option.some.inj (hfind.symm.trans hj)
    rw [hdrop, htake]
  · next hj =>
    rw [hfind] at hj
    cases hj

theorem collect_of_open {gap tail : List Byte} (frames : Nat) (pending : List (List Byte))
    (hgap : FirstAt m.soi gap) (hopen : ¬m.eoi <:+: m.soi ++ tail) :
    collect m maxFrameSize frames pending (gap ++ (m.soi ++ tail)) =
      (pending, some (if maxFrameSize < (m.soi ++ tail).length then [] else m.soi ++ tail)) := by
  rw [collect, find_append m.soi_ne hgap]
  dsimp only
  rw [List.drop_left]
  split
  · next j hj =>
    rw [find_eq_none_iff.mpr hopen] at hj
    cases hj
  · rfl

/-- `read` takes the frames the thread takes, up to the number asked for. -/
theorem collect_eq (frames : Nat) (pending : List (List Byte)) (buffer : List Byte)
    (hpending : pending.length < frames) :
    collect m maxFrameSize frames pending buffer =
      if frames ≤ (pending ++ (drain m maxFrameSize buffer).1).length then
        ((pending ++ (drain m maxFrameSize buffer).1).take frames, none)
      else (pending ++ (drain m maxFrameSize buffer).1, some (drain m maxFrameSize buffer).2) := by
  induction hlength : buffer.length using Nat.strong_induction_on generalizing buffer pending with
  | _ n ih =>
    have hkeep (kept : List Byte) : (pending, some kept) =
        if frames ≤ (pending ++ ([] : List (List Byte))).length then
          ((pending ++ []).take frames, none) else (pending ++ [], some kept) := by
      rw [List.append_nil, if_neg (by omega)]
    cases hsoi : find m.soi buffer with
    | none =>
      rw [drain_of_none hsoi, collect, hsoi]
      exact hkeep buffer
    | some i =>
      obtain ⟨gap, tail, rfl, -, hgap⟩ := exists_of_find m.soi_ne hsoi
      by_cases hopen : m.eoi <:+: m.soi ++ tail
      · cases heoi : find m.eoi (m.soi ++ tail) with
        | none => exact absurd hopen (find_eq_none_iff.mp heoi)
        | some j =>
          obtain ⟨body, rest, heq, -, hbody⟩ := exists_of_find m.eoi_ne heoi
          have hshorter := congrArg List.length heq
          have hpos := List.length_pos_iff.mpr m.eoi_ne
          simp only [List.length_append] at hshorter hlength
          rw [drain_of_end hgap hbody heq, collect_of_end frames pending hgap hbody heq]
          dsimp only
          rw [List.append_cons pending _ (drain m maxFrameSize rest).1]
          have hone : (pending ++ [body.drop m.soi.length]).length = pending.length + 1 := by
            rw [List.length_append, List.length_singleton]
          by_cases hfull : (pending ++ [body.drop m.soi.length]).length = frames
          · rw [if_pos hfull, if_pos (by rw [List.length_append]; omega),
              List.take_append_of_le_length (by omega), List.take_of_length_le (by omega)]
          · rw [if_neg hfull]
            exact ih rest.length (by omega) _ rest (by omega) rfl
      · rw [drain_of_open hgap hopen, collect_of_open frames pending hgap hopen]
        exact hkeep _

/-- **`read` returns the first frames** the thread would deliver. -/
theorem read_eq_take (frames : Nat) (pending : List (List Byte)) (buffer : List Byte)
    (reads : List (List Byte)) (hpending : pending.length < frames) :
    read m maxFrameSize frames pending buffer reads =
      (pending ++ (readThread m maxFrameSize buffer reads).1).take frames := by
  induction reads generalizing pending buffer with
  | nil =>
    rw [read, readThread, List.append_nil, List.take_of_length_le (by omega)]
  | cons data reads ih =>
    rw [read, readThread]
    dsimp only
    unfold receive
    split
    · rw [List.nil_append]
      exact ih pending buffer hpending
    · rw [collect_eq frames pending _ hpending, ← List.append_assoc]
      split
      · next hfull =>
        split at hfull
        · next henough =>
          obtain ⟨rfl, -⟩ := Prod.mk.inj hfull
          rw [List.take_append_of_le_length henough]
        · cases (Prod.mk.inj hfull).2
      · next hopen =>
        split at hopen
        · cases (Prod.mk.inj hopen).2
        · next hmore =>
          obtain ⟨rfl, hbuffer⟩ := Prod.mk.inj hopen
          obtain rfl := Option.some.inj hbuffer
          exact ih _ _ (by omega)

/-- What a reader leaves in its buffer has no whole frame. -/
theorem drain_rest (buffer : List Byte) :
    drain m maxFrameSize (drain m maxFrameSize buffer).2 =
      ([], (drain m maxFrameSize buffer).2) := by
  induction hlength : buffer.length using Nat.strong_induction_on generalizing buffer with
  | _ n ih =>
    cases hsoi : find m.soi buffer with
    | none => rw [drain_of_none hsoi, drain_of_none hsoi]
    | some i =>
      obtain ⟨gap, tail, rfl, -, hgap⟩ := exists_of_find m.soi_ne hsoi
      by_cases hopen : m.eoi <:+: m.soi ++ tail
      · cases heoi : find m.eoi (m.soi ++ tail) with
        | none => exact absurd hopen (find_eq_none_iff.mp heoi)
        | some j =>
          obtain ⟨body, rest, heq, -, hbody⟩ := exists_of_find m.eoi_ne heoi
          rw [drain_of_end hgap hbody heq]
          refine ih rest.length ?_ rest rfl
          have hshorter := congrArg List.length heq
          have hpos := List.length_pos_iff.mpr m.eoi_ne
          simp only [List.length_append] at hshorter hlength
          omega
      · rw [drain_of_open hgap hopen]
        dsimp only
        split
        · exact drain_nil
        · next hsize =>
          rw [← List.nil_append (m.soi ++ tail), drain_of_open (firstAt_nil m.soi_ne) hopen,
            if_neg hsize, List.nil_append]

/-! ## Streams that are found -/

/-- A stream whose frames the reader finds one after the other. -/
inductive Found (m : Markers) (maxFrameSize : Nat) : List (List Byte) → List Byte → Prop
  | tail {gap : List Byte} : ¬m.soi <:+: gap → Found m maxFrameSize [] gap
  | frame {gap payload : List Byte} {payloads : List (List Byte)} {stream : List Byte} :
    FirstAt m.soi gap → FirstAt m.eoi (m.soi ++ payload) →
      m.soi.length + payload.length + m.eoi.length ≤ maxFrameSize + 1 →
        Found m maxFrameSize payloads stream →
          Found m maxFrameSize (payload :: payloads)
            (gap ++ (m.soi ++ (payload ++ (m.eoi ++ stream))))

variable {payloads : List (List Byte)} {stream : List Byte}

/-- In one buffer. -/
theorem Found.drain_eq (h : Found m maxFrameSize payloads stream) :
    (drain m maxFrameSize stream).1 = payloads := by
  induction h with
  | tail hgap => rw [drain_of_none (find_eq_none_iff.mpr hgap)]
  | @frame gap payload payloads stream hgap hends _ _ ih =>
    have hend : m.soi ++ (payload ++ (m.eoi ++ stream)) =
        (m.soi ++ payload) ++ (m.eoi ++ stream) := (List.append_assoc _ _ _).symm
    rw [drain_of_end hgap hends hend, ih, List.drop_left]

/-- **A reader that has the beginning of a stream** takes the first payloads out of it, and what it
keeps begins a stream of the others. -/
theorem Found.drain_append (h : Found m maxFrameSize payloads stream) {buffer future : List Byte}
    (heq : stream = buffer ++ future) :
    ∃ later, payloads = (drain m maxFrameSize buffer).1 ++ later ∧
      Found m maxFrameSize later ((drain m maxFrameSize buffer).2 ++ future) := by
  induction h generalizing buffer with
  | @tail gap hgap =>
    have hnone : find m.soi buffer = none := by
      rw [find_eq_none_iff]
      intro hinfix
      exact hgap (heq ▸ List.infix_append_of_infix_left hinfix)
    rw [drain_of_none hnone]
    exact ⟨[], rfl, heq ▸ .tail hgap⟩
  | @frame gap payload payloads stream hgap hends hsize hrest ih =>
    cases hsoi : find m.soi buffer with
    | none =>
      rw [drain_of_none hsoi]
      exact ⟨_, rfl, heq ▸ .frame hgap hends hsize hrest⟩
    | some i =>
      obtain ⟨gap', tail, rfl, -, hgap'⟩ := exists_of_find m.soi_ne hsoi
      rw [List.append_assoc, List.append_assoc] at heq
      obtain ⟨rfl, htail⟩ := hgap.unique hgap' heq
      by_cases hopen : m.eoi <:+: m.soi ++ tail
      · cases heoi : find m.eoi (m.soi ++ tail) with
        | none => exact absurd hopen (find_eq_none_iff.mp heoi)
        | some j =>
          -- the end marker that is found is the one of the frame
          obtain ⟨body, rest, hbody, -, hfirst⟩ := exists_of_find m.eoi_ne heoi
          have hstream : (m.soi ++ payload) ++ (m.eoi ++ stream) =
              body ++ (m.eoi ++ (rest ++ future)) := by
            rw [List.append_assoc, htail, ← List.append_assoc, hbody, List.append_assoc,
              List.append_assoc]
          obtain ⟨rfl, hnext⟩ := hends.unique hfirst hstream
          obtain ⟨later, hpayloads, hlater⟩ := ih hnext
          rw [drain_of_end hgap hends hbody, List.drop_left]
          exact ⟨later, by rw [hpayloads]; rfl, hlater⟩
      · -- the frame goes on, and fits
        have hlength : tail.length < payload.length + m.eoi.length := by
          by_contra hlt
          refine hopen (List.infix_append_of_infix_right ?_)
          have hcut : payload ++ m.eoi <+: tail := by
            have hlong : payload ++ m.eoi <+: tail ++ future := by
              rw [← htail, ← List.append_assoc]
              exact List.prefix_append _ _
            refine List.prefix_of_prefix_length_le hlong (List.prefix_append _ _) ?_
            rw [List.length_append]
            omega
          exact (List.suffix_append payload m.eoi).isInfix.trans hcut.isInfix
        have hfits : ¬maxFrameSize < (m.soi ++ tail).length := by
          rw [List.length_append]
          omega
        rw [drain_of_open hgap hopen, if_neg hfits]
        refine ⟨_, rfl, ?_⟩
        rw [List.append_assoc, ← htail, ← List.nil_append (m.soi ++ _)]
        exact .frame (firstAt_nil m.soi_ne) hends hsize hrest

/-- **Reading a stream in pieces.** -/
theorem Found.readThread_eq {buffer : List Byte} {reads : List (List Byte)}
    (hbuffer : (drain m maxFrameSize buffer).1 = [])
    (h : Found m maxFrameSize payloads (buffer ++ reads.flatten)) :
    (readThread m maxFrameSize buffer reads).1 = payloads := by
  induction reads generalizing buffer payloads with
  | nil =>
    rw [List.flatten_nil, List.append_nil] at h
    rw [readThread, ← h.drain_eq, hbuffer]
  | cons data reads ih =>
    rw [readThread]
    dsimp only
    unfold receive
    split
    · next hdata =>
      rw [hdata, List.flatten_cons, List.nil_append] at h
      rw [List.nil_append]
      exact ih hbuffer h
    · rw [List.flatten_cons, ← List.append_assoc] at h
      obtain ⟨later, hpayloads, hlater⟩ := h.drain_append rfl
      rw [ih (by rw [drain_rest]) hlater, hpayloads]

/-! ## Which payloads are delivered -/

/-- Intact payloads are found. -/
theorem found_of_carries {payloads : List (List Byte)} {stream : List Byte}
    (h : Carries m payloads stream) (hintact : ∀ payload ∈ payloads, Intact m maxFrameSize payload) :
    Found m maxFrameSize payloads stream := by
  induction h with
  | tail hgap => exact .tail hgap
  | frame hgap _ ih =>
    obtain ⟨hunbordered, hends, hsize⟩ := hintact _ List.mem_cons_self
    exact .frame (firstAt_of_unbordered hunbordered hgap) hends hsize
      (ih fun payload hpayload => hintact payload (List.mem_cons_of_mem _ hpayload))

section Single

variable {payload : List Byte}

/-- One frame behind a text without a start marker. -/
theorem carries_single {gap : List Byte} (hgap : ¬m.soi <:+: gap) :
    Carries m [payload] (gap ++ (m.soi ++ (payload ++ m.eoi))) := by
  have hnil : ¬m.soi <:+: [] := by
    rw [List.infix_nil]
    exact m.soi_ne
  have h : Carries m [payload] (gap ++ (m.soi ++ (payload ++ (m.eoi ++ [])))) :=
    .frame hgap (.tail hnil)
  rwa [List.append_nil] at h

/-- The payload that is taken out of a single buffer ends at the first end marker. -/
theorem body_of_delivered {text : List Byte} (hpayload : payload ≠ [])
    (h : delivered m maxFrameSize [m.soi ++ text] = [payload]) :
    FirstAt m.eoi (m.soi ++ payload) ∧ ∃ rest, text = payload ++ (m.eoi ++ rest) := by
  have hdata : m.soi ++ text ≠ [] := fun hnil => m.soi_ne (List.append_eq_nil_iff.mp hnil).1
  have hdrain : (drain m maxFrameSize (m.soi ++ text)).1 = [payload] := by
    simpa [delivered, readThread, receive, hdata] using h
  cases heoi : find m.eoi (m.soi ++ text) with
  | none =>
    rw [← List.nil_append (m.soi ++ text), drain_of_open (firstAt_nil m.soi_ne)
      (find_eq_none_iff.mp heoi)] at hdrain
    cases hdrain
  | some j =>
    obtain ⟨body, rest, heq, -, hbody⟩ := exists_of_find m.eoi_ne heoi
    rw [← List.nil_append (m.soi ++ text), drain_of_end (firstAt_nil m.soi_ne) hbody heq] at hdrain
    obtain ⟨hdrop, -⟩ := List.cons.inj hdrain
    rcases List.append_eq_append_iff.mp heq with ⟨tail, rfl, htext⟩ | ⟨tail, hsoi, -⟩
    · rw [List.drop_left] at hdrop
      subst hdrop
      exact ⟨hbody, rest, htext⟩
    · -- an end marker inside the start marker leaves nothing of the payload
      refine absurd (hdrop.symm.trans (List.drop_eq_nil_of_le ?_)) hpayload
      rw [hsoi, List.length_append]
      omega

end Single

section Necessary

variable {kind : List Byte → Prop} {payload : List Byte}

theorem ends_of_deliversAll (h : DeliversAll m maxFrameSize kind) (hkind : kind payload)
    (hne : payload ≠ []) : FirstAt m.eoi (m.soi ++ payload) := by
  have hgap : ¬m.soi <:+: [] := by
    rw [List.infix_nil]
    exact m.soi_ne
  have hdelivered : delivered m maxFrameSize [m.soi ++ (payload ++ m.eoi)] = [payload] :=
    h [payload] _ _ (by simpa using hkind) (carries_single hgap) (by simp)
  exact (body_of_delivered hne hdelivered).1

/-- The frame that is cut just before the end of its end marker is forgotten if it is too long. -/
theorem size_of_deliversAll (h : DeliversAll m maxFrameSize kind) (hkind : kind payload)
    (hne : payload ≠ []) :
    m.soi.length + payload.length + m.eoi.length ≤ maxFrameSize + 1 := by
  have hends := ends_of_deliversAll h hkind hne
  by_contra hsize
  have hgap : ¬m.soi <:+: [] := by
    rw [List.infix_nil]
    exact m.soi_ne
  have hreads : [m.soi ++ (payload ++ m.eoi.dropLast), [m.eoi.getLast m.eoi_ne]].flatten =
      [] ++ (m.soi ++ (payload ++ m.eoi)) := by
    simp [List.dropLast_append_getLast]
  have hdelivered := h [payload] _ _ (by simpa using hkind) (carries_single hgap) hreads
  have hopen : ¬m.eoi <:+: m.soi ++ (payload ++ m.eoi.dropLast) := by
    rw [← List.append_assoc]
    exact hends
  have hcleared : drain m maxFrameSize (m.soi ++ (payload ++ m.eoi.dropLast)) = ([], []) := by
    have hpos := List.length_pos_iff.mpr m.eoi_ne
    rw [← List.nil_append (m.soi ++ _), drain_of_open (firstAt_nil m.soi_ne) hopen, if_pos]
    rw [List.length_append, List.length_append, List.length_dropLast]
    omega
  have hlast : (drain m maxFrameSize [m.eoi.getLast m.eoi_ne]).1 = [] := by
    cases hsoi : find m.soi [m.eoi.getLast m.eoi_ne] with
    | none => rw [drain_of_none hsoi]
    | some i =>
      obtain ⟨gap, tail, heq, -, hfirst⟩ := exists_of_find m.soi_ne hsoi
      have hlength := congrArg List.length heq
      have hpos := List.length_pos_iff.mpr m.soi_ne
      simp only [List.length_singleton, List.length_append] at hlength
      obtain rfl := List.length_eq_zero_iff.mp (show tail.length = 0 by omega)
      have hsoi_free : ¬m.eoi <:+: m.soi ++ [] := by
        rw [List.append_nil]
        exact fun hinfix => hends.not_infix (List.infix_append_of_infix_left hinfix)
      rw [heq, drain_of_open hfirst hsoi_free]
  have hdata : m.soi ++ (payload ++ m.eoi.dropLast) ≠ [] :=
    fun hnil => m.soi_ne (List.append_eq_nil_iff.mp hnil).1
  simp [delivered, readThread, receive, hdata, hcleared, hlast] at hdelivered

/-- A start marker that overlaps itself is found too early behind a gap. -/
theorem unbordered_of_deliversAll (h : DeliversAll m maxFrameSize kind) (hkind : kind payload)
    (hne : payload ≠ []) : Unbordered m.soi := by
  have hends := ends_of_deliversAll h hkind hne
  intro b hstart hend
  by_contra hproper
  rw [not_or] at hproper
  obtain ⟨hb, hbsoi⟩ := hproper
  obtain ⟨x, hx⟩ := id hstart
  obtain ⟨y, hy⟩ := hend
  have hbpos := List.length_pos_iff.mpr hb
  have hgap : ¬m.soi <:+: y := by
    intro hinfix
    have hlength := hinfix.length_le
    rw [← hy, List.length_append] at hlength
    omega
  have hstream : [m.soi ++ (x ++ (payload ++ m.eoi))].flatten =
      y ++ (m.soi ++ (payload ++ m.eoi)) := by
    rw [List.flatten_singleton]
    nth_rewrite 2 [← hx]
    nth_rewrite 1 [← hy]
    simp only [List.append_assoc]
  obtain ⟨-, rest, hrest⟩ := body_of_delivered hne
    (h [payload] _ _ (by simpa using hkind) (carries_single hgap) hstream)
  have heq : (m.soi ++ payload) ++ (m.eoi ++ []) = (b ++ payload) ++ (m.eoi ++ rest) := by
    nth_rewrite 1 [← hx]
    simp only [List.append_assoc, List.append_nil]
    rw [hrest]
  have hlength := hends.length_le heq
  rw [List.length_append, List.length_append] at hlength
  exact hbsoi (hstart.eq_of_length_le (by omega))

end Necessary

/-- **Frames are delivered however the bytes are split**, if every payload is intact; and a kind of
payloads that is always delivered has no other ones, but for the empty payload. -/
theorem frames_delivered (m : Markers) (maxFrameSize : Nat) (kind : List Byte → Prop) :
    ((∀ payload, kind payload → Intact m maxFrameSize payload) → DeliversAll m maxFrameSize kind) ∧
      (DeliversAll m maxFrameSize kind → ∀ payload, kind payload → payload ≠ [] →
        Intact m maxFrameSize payload) := by
  refine ⟨fun hintact payloads stream reads hkind hcarries hreads => ?_,
    fun h payload hkind hne => ?_⟩
  · have hfound := found_of_carries hcarries fun payload hpayload =>
      hintact payload (hkind payload hpayload)
    rw [← hreads, ← List.nil_append reads.flatten] at hfound
    exact hfound.readThread_eq (by rw [drain_nil])
  · exact ⟨unbordered_of_deliversAll h hkind hne, ends_of_deliversAll h hkind hne,
      size_of_deliversAll h hkind hne⟩

/-- The payloads a device may send: without markers, and as long as a frame may be. -/
def Plain (m : Markers) (maxFrameSize : Nat) (payload : List Byte) : Prop :=
  ¬m.soi <:+: payload ∧ ¬m.eoi <:+: payload ∧ payload.length ≤ maxFrameSize

/-- Two common markers: the second is the first one backwards. -/
def mirroredMarkers : Markers where
  soi := [0xAA, 0x55]
  eoi := [0x55, 0xAA]
  soi_ne := by decide
  eoi_ne := by decide

/-- A payload that begins with `AA` is lost: with the end of its start marker it makes an end
marker. -/
theorem not_deliversAll_mirrored :
    ¬ ∀ m : Markers, DeliversAll m defaultMaxFrameSize (Plain m defaultMaxFrameSize) := by
  intro hall
  have hplain : Plain mirroredMarkers defaultMaxFrameSize [0xAA] := by
    refine ⟨?_, ?_, by decide⟩ <;> exact fun hinfix => absurd hinfix.length_le (by decide)
  have hends := ends_of_deliversAll (hall mirroredMarkers) hplain (by decide)
  exact hends ⟨[0xAA], [0x55], rfl⟩

end SerialFrame

end ProtocolGateway
