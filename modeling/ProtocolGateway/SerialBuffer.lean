import ProtocolGateway.SerialFrame

/-!
# How long the buffer of a serial port gets

`serial_frame_client` clears its buffer when a frame that has begun gets too long. Bytes without a
start marker are kept: nothing is cut off before one is found. So the buffer is bounded over a run
exactly as far as the stretches of the stream without a start marker are.

* `threadBuffers`, `readBuffers` — the buffer after every round of `read_thread` and of `read`.
* `Quiet` — no stretch without a start marker is longer than a number of bytes.
* `buffers_bounded` — from stretches to the buffer, and back.
-/

namespace ProtocolGateway

open Search

namespace SerialFrame

section Buffers

variable (m : Markers) (maxFrameSize : Nat)

/-- The buffer of `read_thread` after every round. -/
def threadBuffers (buffer : List Byte) : List (List Byte) → List (List Byte)
  | [] => []
  | data :: reads =>
    let round := receive m maxFrameSize buffer data
    round.2 :: threadBuffers round.2 reads

/-- The buffer of `read` after every round, up to the one that returns. -/
def readBuffers (frames : Nat) (pending : List (List Byte)) (buffer : List Byte) :
    List (List Byte) → List (List Byte)
  | [] => []
  | data :: reads =>
    if data = [] then buffer :: readBuffers frames pending buffer reads
    else
      match collect m maxFrameSize frames pending (buffer ++ data) with
      | (_, none) => []
      | (pending, some buffer) => buffer :: readBuffers frames pending buffer reads

/-- No stretch of a stream without the start marker is longer. -/
def Quiet (longest : Nat) (stream : List Byte) : Prop :=
  ∀ stretch, stretch <:+: stream → ¬m.soi <:+: stretch → stretch.length ≤ longest

end Buffers

variable {m : Markers} {maxFrameSize : Nat}

/-! ## One round -/

/-- What stays of a buffer is its end, and has no start marker or is no longer than a frame. -/
theorem drain_rest_bound (buffer : List Byte) :
    (drain m maxFrameSize buffer).2 <:+ buffer ∧
      (¬m.soi <:+: (drain m maxFrameSize buffer).2 ∨
        (drain m maxFrameSize buffer).2.length ≤ maxFrameSize) := by
  fun_induction drain m maxFrameSize buffer with
  | case1 buffer hsoi => exact ⟨List.suffix_rfl, Or.inl (find_eq_none_iff.mp hsoi)⟩
  | case2 buffer i hsoi j heoi frame rest ih =>
    exact ⟨ih.1.trans ((List.drop_suffix _ _).trans (List.drop_suffix _ _)), ih.2⟩
  | case3 buffer i hsoi heoi hlong => exact ⟨List.nil_suffix, Or.inr (Nat.zero_le _)⟩
  | case4 buffer i hsoi heoi hshort => exact ⟨List.drop_suffix _ _, Or.inr (not_lt.mp hshort)⟩

theorem receive_suffix (buffer data : List Byte) :
    (receive m maxFrameSize buffer data).2 <:+ buffer ++ data := by
  rw [receive]
  split
  · next hdata =>
    rw [hdata, List.append_nil]
  · exact (drain_rest_bound _).1

theorem receive_rest_bound {buffer : List Byte} (data : List Byte)
    (h : ¬m.soi <:+: buffer ∨ buffer.length ≤ maxFrameSize) :
    ¬m.soi <:+: (receive m maxFrameSize buffer data).2 ∨
      (receive m maxFrameSize buffer data).2.length ≤ maxFrameSize := by
  rw [receive]
  split
  · exact h
  · exact (drain_rest_bound _).2

/-- `read` leaves the buffer that the thread would leave. -/
theorem collect_rest {frames : Nat} {pending pending' : List (List Byte)} {buffer rest : List Byte}
    (h : collect m maxFrameSize frames pending buffer = (pending', some rest)) :
    (drain m maxFrameSize buffer).2 = rest := by
  fun_induction collect m maxFrameSize frames pending buffer with
  | case1 pending buffer hsoi =>
    rw [drain_of_none hsoi]
    exact Option.some.inj (congrArg Prod.snd h)
  | case2 pending buffer i hsoi j heoi pending'' hfull => cases congrArg Prod.snd h
  | case3 pending buffer i hsoi j heoi pending'' hmore ih =>
    rw [← ih h, drain, hsoi]
    dsimp only
    split
    · next j' hj =>
      obtain rfl := Option.some.inj (heoi.symm.trans hj)
      rfl
    · next hnone =>
      rw [heoi] at hnone
      cases hnone
  | case4 pending buffer i hsoi heoi =>
    rw [← Option.some.inj (congrArg Prod.snd h), drain, hsoi]
    dsimp only
    split
    · next j hj =>
      rw [heoi] at hj
      cases hj
    · split <;> rfl

/-- The buffers of `read` are those of the thread, as long as it goes on. -/
theorem readBuffers_prefix (frames : Nat) (pending : List (List Byte)) (buffer : List Byte)
    (reads : List (List Byte)) :
    readBuffers m maxFrameSize frames pending buffer reads <+:
      threadBuffers m maxFrameSize buffer reads := by
  induction reads generalizing pending buffer with
  | nil => exact List.nil_prefix
  | cons data reads ih =>
    rw [readBuffers, threadBuffers, receive]
    split
    · exact (List.prefix_cons_inj buffer).mpr (ih pending buffer)
    · generalize hcollect : collect m maxFrameSize frames pending (buffer ++ data) = collected
      obtain ⟨pending', rest⟩ := collected
      cases rest with
      | none => exact List.nil_prefix
      | some rest =>
        rw [collect_rest hcollect]
        exact (List.prefix_cons_inj rest).mpr (ih pending' rest)

/-! ## From stretches to the buffer -/

theorem round_suffix (buffer data : List Byte) (reads : List (List Byte)) :
    (receive m maxFrameSize buffer data).2 ++ reads.flatten <:+
      buffer ++ (data :: reads).flatten := by
  obtain ⟨front, hfront⟩ : (receive m maxFrameSize buffer data).2 <:+ buffer ++ data :=
    receive_suffix buffer data
  rw [List.flatten_cons, ← List.append_assoc]
  exact ⟨front, by rw [← hfront, List.append_assoc]⟩

/-- Every buffer is a piece of the stream, and has no start marker or is no longer than a frame. -/
theorem threadBuffers_bound {buffer : List Byte} {reads : List (List Byte)}
    (h : ¬m.soi <:+: buffer ∨ buffer.length ≤ maxFrameSize) {rest : List Byte}
    (hrest : rest ∈ threadBuffers m maxFrameSize buffer reads) :
    rest <:+: buffer ++ reads.flatten ∧ (¬m.soi <:+: rest ∨ rest.length ≤ maxFrameSize) := by
  induction reads generalizing buffer with
  | nil => cases hrest
  | cons data reads ih =>
    have hround := receive_rest_bound data h
    have hstream : (receive m maxFrameSize buffer data).2 ++ reads.flatten <:+:
        buffer ++ (data :: reads).flatten := (round_suffix buffer data reads).isInfix
    rcases List.mem_cons.mp hrest with rfl | hrest
    · exact ⟨(List.prefix_append _ _).isInfix.trans hstream, hround⟩
    · obtain ⟨hwithin, hkind⟩ := ih hround hrest
      exact ⟨hwithin.trans hstream, hkind⟩

theorem length_le_of_quiet {longest : Nat} {reads : List (List Byte)}
    (hquiet : Quiet m longest reads.flatten) {buffer : List Byte}
    (hbuffer : buffer ∈ threadBuffers m maxFrameSize [] reads) :
    buffer.length ≤ max maxFrameSize longest := by
  have hnil : ¬m.soi <:+: [] := fun h => m.soi_ne (List.infix_nil.mp h)
  obtain ⟨hwithin, hfree | hshort⟩ := threadBuffers_bound (Or.inl hnil) hbuffer
  · exact le_max_of_le_right (hquiet buffer hwithin hfree)
  · exact le_max_of_le_left hshort

/-! ## From the buffer to stretches -/

/-- Bytes without a start marker are all kept. -/
theorem readThread_of_free {buffer : List Byte} {reads : List (List Byte)}
    (h : ¬m.soi <:+: buffer ++ reads.flatten) :
    (readThread m maxFrameSize buffer reads).2 = buffer ++ reads.flatten := by
  induction reads generalizing buffer with
  | nil => exact (List.append_nil buffer).symm
  | cons data reads ih =>
    rw [List.flatten_cons, ← List.append_assoc] at h ⊢
    have hround : (receive m maxFrameSize buffer data).2 = buffer ++ data := by
      rw [receive]
      split
      · next hdata => rw [hdata, List.append_nil]
      · have hfree : ¬m.soi <:+: buffer ++ data :=
          fun hsoi => h (hsoi.trans (List.prefix_append _ _).isInfix)
        rw [drain_of_none (find_eq_none_iff.mpr hfree)]
    rw [readThread, hround]
    exact ih h

theorem readThread_append (buffer : List Byte) (front back : List (List Byte)) :
    (readThread m maxFrameSize buffer (front ++ back)).2 =
      (readThread m maxFrameSize (readThread m maxFrameSize buffer front).2 back).2 := by
  induction front generalizing buffer with
  | nil => rfl
  | cons data front ih => exact ih _

/-- The buffer is the end of what was read. -/
theorem readThread_suffix (reads : List (List Byte)) :
    (readThread m maxFrameSize [] reads).2 <:+ reads.flatten := by
  have hany (buffer : List Byte) :
      (readThread m maxFrameSize buffer reads).2 <:+ buffer ++ reads.flatten := by
    induction reads generalizing buffer with
    | nil => rw [List.flatten_nil, List.append_nil, readThread]
    | cons data reads ih => exact (ih _).trans (round_suffix buffer data reads)
  exact hany []

theorem threadBuffers_append (buffer : List Byte) (front back : List (List Byte)) :
    threadBuffers m maxFrameSize buffer (front ++ back) =
      threadBuffers m maxFrameSize buffer front ++
        threadBuffers m maxFrameSize (readThread m maxFrameSize buffer front).2 back := by
  induction front generalizing buffer with
  | nil => rfl
  | cons data front ih => rw [List.cons_append, threadBuffers, ih, threadBuffers]; rfl

/-- The buffer after some reads is the last of theirs. -/
theorem readThread_mem {front : List (List Byte)} (hfront : front ≠ []) (buffer : List Byte)
    (back : List (List Byte)) :
    (readThread m maxFrameSize buffer front).2 ∈
      threadBuffers m maxFrameSize buffer (front ++ back) := by
  rw [threadBuffers_append, List.mem_append]
  left
  induction front generalizing buffer with
  | nil => exact absurd rfl hfront
  | cons data front ih =>
    cases front with
    | nil => exact List.mem_cons_self
    | cons next front => exact List.mem_cons_of_mem _ (ih (List.cons_ne_nil _ _) _)

/-- The reads up to a number of bytes take at most one read more. -/
theorem exists_front {readSize : Nat} {reads : List (List Byte)}
    (hreads : ∀ data ∈ reads, data.length ≤ readSize) {n : Nat} (hn : n ≤ reads.flatten.length) :
    ∃ front back, reads = front ++ back ∧ n ≤ front.flatten.length ∧
      front.flatten.length ≤ n + readSize := by
  induction reads generalizing n with
  | nil => exact ⟨[], [], rfl, hn, Nat.zero_le _⟩
  | cons data reads ih =>
    have hdata := hreads data List.mem_cons_self
    rw [List.flatten_cons, List.length_append] at hn
    by_cases hzero : n = 0
    · exact ⟨[], data :: reads, rfl, hzero.le, Nat.zero_le _⟩
    · obtain ⟨front, back, rfl, hlower, hupper⟩ :=
        ih (fun other hother => hreads other (List.mem_cons_of_mem _ hother))
          (n := n - data.length) (by omega)
      by_cases henough : n ≤ data.length
      · refine ⟨[data], front ++ back, rfl, ?_, ?_⟩
        · simpa using henough
        · simpa using le_add_left hdata
      · refine ⟨data :: front, back, rfl, ?_, ?_⟩
        · rw [List.flatten_cons, List.length_append]
          omega
        · rw [List.flatten_cons, List.length_append]
          omega

/-- The end of a beginning, and what follows it, within a stretch. -/
theorem infix_of_within {kept front inside back before stretch after : List Byte}
    (hkept : kept <:+ front)
    (hstream : before ++ stretch ++ after = front ++ (inside ++ back))
    (hlower : before.length + kept.length ≤ front.length)
    (hupper : front.length + inside.length ≤ before.length + stretch.length) :
    kept ++ inside <:+: stretch := by
  rw [List.append_assoc] at hstream
  obtain ⟨between, rfl⟩ : before <+: front :=
    List.prefix_of_prefix_length_le ⟨_, hstream⟩ (List.prefix_append _ _) (by omega)
  rw [List.append_assoc, List.append_cancel_left_eq, ← List.append_assoc] at hstream
  rw [List.length_append] at hlower hupper
  have hbetween : kept <:+ between :=
    List.suffix_of_suffix_length_le hkept (List.suffix_append _ _) (by omega)
  have hpiece : between ++ inside <+: stretch :=
    List.prefix_of_prefix_length_le ⟨_, hstream.symm⟩ (List.prefix_append _ _)
      (by rw [List.length_append]; omega)
  obtain ⟨rest, rfl⟩ := hbetween
  have hend : kept ++ inside <:+ rest ++ kept ++ inside :=
    ⟨rest, (List.append_assoc _ _ _).symm⟩
  exact hend.isInfix.trans hpiece.isInfix

/-- **The buffer tells the stretches.** Behind the first bytes of a stretch the buffer lies within
it, and from there on it only grows. -/
theorem quiet_of_bounded {bound readSize : Nat} {reads : List (List Byte)}
    (hreads : ∀ data ∈ reads, data.length ≤ readSize)
    (hbound : ∀ buffer ∈ threadBuffers m maxFrameSize [] reads, buffer.length ≤ bound) :
    Quiet m (2 * (bound + readSize)) reads.flatten := by
  rintro stretch ⟨before, after, hstream⟩ hfree
  by_contra hlong
  have hlength := congrArg List.length hstream
  rw [List.length_append, List.length_append] at hlength
  obtain ⟨front, reads', rfl, hfront, hfront'⟩ :=
    exists_front hreads (n := before.length + bound) (by omega)
  rw [List.flatten_append, List.length_append] at hlength
  obtain ⟨inside, back, rfl, hinside, hinside'⟩ :=
    exists_front (fun data hdata => hreads data (List.mem_append_right _ hdata))
      (n := bound + 1) (by omega)
  generalize hkept : (readThread m maxFrameSize [] front).2 = kept
  have hsuffix : kept <:+ front.flatten := hkept ▸ readThread_suffix front
  have hkeptShort : kept.length ≤ bound := by
    cases front with
    | nil => exact hkept ▸ Nat.zero_le bound
    | cons data front =>
      exact hbound kept (hkept ▸ readThread_mem (List.cons_ne_nil data front) [] _)
  have hpiece : kept ++ inside.flatten <:+: stretch := by
    rw [List.flatten_append, List.flatten_append] at hstream
    exact infix_of_within hsuffix hstream (by omega) (by omega)
  have hgrown : (readThread m maxFrameSize [] (front ++ inside)).2 = kept ++ inside.flatten := by
    rw [readThread_append, hkept]
    exact readThread_of_free fun hsoi => hfree (hsoi.trans hpiece)
  have hinsideNe : inside ≠ [] := by
    rintro rfl
    exact absurd hinside (by simp)
  have hmem : (readThread m maxFrameSize [] (front ++ inside)).2 ∈
      threadBuffers m maxFrameSize [] (front ++ inside ++ back) :=
    readThread_mem (List.append_ne_nil_of_right_ne_nil front hinsideNe) [] back
  rw [hgrown, List.append_assoc] at hmem
  have hle := hbound _ hmem
  rw [List.length_append] at hle
  omega

/-! ## Both -/

/-- **The buffer over a run.** It is no longer than a frame may be, or than the longest stretch of
the stream without a start marker. The second is not a matter of how the trimming is counted: the
buffers of some streams have a bound only if these stretches have one. -/
theorem buffers_bounded (m : Markers) (maxFrameSize : Nat) :
    (∀ longest reads, Quiet m longest reads.flatten →
      (∀ buffer ∈ threadBuffers m maxFrameSize [] reads,
        buffer.length ≤ max maxFrameSize longest) ∧
      ∀ frames, ∀ buffer ∈ readBuffers m maxFrameSize frames [] [] reads,
        buffer.length ≤ max maxFrameSize longest) ∧
    ∀ readSize (streams : List (List Byte) → Prop),
      (∀ reads, streams reads → ∀ data ∈ reads, data.length ≤ readSize) →
      ((∃ bound, ∀ reads, streams reads → ∀ buffer ∈ threadBuffers m maxFrameSize [] reads,
          buffer.length ≤ bound) ↔
        ∃ longest, ∀ reads, streams reads → Quiet m longest reads.flatten) := by
  refine ⟨fun longest reads hquiet => ⟨fun buffer hbuffer => length_le_of_quiet hquiet hbuffer,
    fun frames buffer hbuffer => ?_⟩, fun readSize streams hsize => ⟨?_, ?_⟩⟩
  · have hbegins : readBuffers m maxFrameSize frames [] [] reads <+:
        threadBuffers m maxFrameSize [] reads := readBuffers_prefix frames [] [] reads
    exact length_le_of_quiet hquiet (hbegins.subset hbuffer)
  · rintro ⟨bound, hbound⟩
    exact ⟨2 * (bound + readSize), fun reads hreads =>
      quiet_of_bounded (hsize reads hreads) (hbound reads hreads)⟩
  · rintro ⟨longest, hlongest⟩
    exact ⟨max maxFrameSize longest, fun reads hreads buffer hbuffer =>
      length_le_of_quiet (hlongest reads hreads) hbuffer⟩

/-- Noise is kept for as long as it goes on: there is no bound for every stream. -/
theorem noise_kept :
    ¬∃ bound : Nat → Nat → Nat, ∀ (m : Markers) (maxFrameSize readSize : Nat)
      (reads : List (List Byte)), (∀ data ∈ reads, data.length ≤ readSize) →
      ∀ buffer ∈ threadBuffers m maxFrameSize [] reads,
        buffer.length ≤ bound maxFrameSize readSize := by
  rintro ⟨bound, hbound⟩
  let pylon : Markers := ⟨[0x7E], [0x0D], List.cons_ne_nil _ _, List.cons_ne_nil _ _⟩
  let noise := List.replicate (bound defaultMaxFrameSize 1 + 1) [(0x41 : Byte)]
  have hflatten : noise.flatten = List.replicate (bound defaultMaxFrameSize 1 + 1) 0x41 := by
    simp [noise]
  have hfree : ¬pylon.soi <:+: [] ++ noise.flatten := by
    rw [List.nil_append, hflatten]
    intro hsoi
    have hmem := hsoi.subset (List.mem_singleton_self (0x7E : Byte))
    exact absurd (List.eq_of_mem_replicate hmem) (by decide)
  have hlast : (readThread pylon defaultMaxFrameSize [] noise).2 ∈
      threadBuffers pylon defaultMaxFrameSize [] (noise ++ []) :=
    readThread_mem (List.cons_ne_nil _ _) [] []
  rw [List.append_nil, readThread_of_free hfree, List.nil_append] at hlast
  have hle := hbound pylon defaultMaxFrameSize 1 noise
    (fun data hdata => (List.eq_of_mem_replicate hdata) ▸ le_rfl) _ hlast
  rw [hflatten, List.length_replicate] at hle
  exact absurd hle (Nat.not_succ_le_self _)

end SerialFrame

end ProtocolGateway
