import Parley.Proofs.Channel.Wire

/-! What a reading half makes of the bytes it gets.

A step of a read call only moves bytes onward, from the pipe into the buffer and from the
buffer to what is collected of a frame (`advance_partly`), until the collected bytes are one
sealed frame under the next nonce (`advance_frame`). However bytes arrive, those of a wire of
frames within the limit yield these frames and a clean end (`reads_wire`, `exists_reads`),
and only such bytes come to a clean end (`wire_of_reads`). -/
namespace Parley.Channel

/-- A reader with this limit takes the frame. -/
def Admits (max : Nat) (f : Frame) : Prop :=
  Frame.checkCiphertext (f.encode.length + Frame.tagLength) max = .ok ()

/-- A pipe that takes bytes is open, and stays so. -/
theorem Pipe.closed_of_push {p p' : Pipe} {bs rest : Bytes}
    (h : p.push bs = some (.ok (rest, p'))) : p'.closed = false := by
  unfold push at h
  split at h
  · cases h
  · rename_i hopen
    split at h <;> cases h
    simpa using hopen

theorem Pipe.pull_eq_some {p p' : Pipe} {max : Nat} {bs : Bytes}
    (h : p.pull max = some (bs, p')) :
    bs = p.held.take max ∧ p' = { p with held := p.held.drop max } ∧
      (p.held = [] → p.closed = true) := by
  unfold pull at h
  split at h
  · rename_i hheld
    split at h
    · rename_i hclosed
      cases h
      refine ⟨by rw [hheld, List.take_nil], ?_, fun _ => hclosed⟩
      rw [hheld, List.drop_nil, ← hheld]
    · cases h
  · rename_i hheld
    cases h
    exact ⟨rfl, rfl, fun hnil => absurd hnil hheld⟩

/-- A transfer waits only where the pipe is empty. -/
theorem Pipe.empty_of_pull {p : Pipe} {max : Nat} (h : p.pull max = none) : p.held = [] := by
  unfold pull at h
  split at h
  · assumption
  · cases h

namespace Opener

/-! ### Looking at what is collected -/

theorem prefixLength_le_needed (c : Bytes) : Frame.prefixLength ≤ needed c := by
  rw [needed]
  split <;> omega

/-- Collecting never goes past the end of a frame. -/
theorem length_collect_le {c : Bytes} (hc : c.length < needed c) (ahead : Bytes) :
    (c ++ ahead.take (needed c - c.length)).length ≤
      needed (c ++ ahead.take (needed c - c.length)) := by
  have hlen : (c ++ ahead.take (needed c - c.length)).length ≤ needed c := by
    rw [List.length_append, List.length_take]
    omega
  by_cases h4 : c.length < Frame.prefixLength
  · have hneeded : needed c = Frame.prefixLength := by rw [needed, if_pos h4]
    have := prefixLength_le_needed (c ++ ahead.take (needed c - c.length))
    omega
  · have hneeded : needed (c ++ ahead.take (needed c - c.length)) = needed c := by
      have hge : ¬ (c ++ ahead.take (needed c - c.length)).length < Frame.prefixLength := by
        rw [List.length_append]
        omega
      rw [needed, if_neg hge, declared, List.take_append_of_le_length (by omega), needed, if_neg h4,
        declared]
    rw [hneeded]
    exact hlen

theorem inspect_partly {o o' : Opener} {c c' : Bytes} (h : o.inspect c = (.partly c', o')) :
    c' = c ∧ o' = o ∧ c.length < needed c := by
  unfold inspect at h
  split at h
  · rename_i h4
    cases h
    exact ⟨rfl, rfl, by rw [needed, if_pos h4]; exact h4⟩
  · split at h
    · cases h
    · split at h
      · rename_i hlt
        cases h
        exact ⟨rfl, rfl, hlt⟩
      · split at h <;> cases h

theorem inspect_ne_ended {o o' : Opener} {c : Bytes} : o.inspect c ≠ (.ended, o') := by
  intro h
  unfold inspect at h
  split at h
  · cases h
  · split at h
    · cases h
    · split at h
      · cases h
      · split at h <;> cases h

/-- What opens is the plaintext's frame, sealed under the next nonce. -/
theorem decrypt_ok {o o' : Opener} {header body : Bytes} {f : Frame}
    (h : o.decrypt header body = (.ok f, o')) :
    body = Crypto.Aead.encrypt o.key.bytes (Nonce.encode o.nonces.direction o.nonces.counter) header
        f.encode ∧
      o.nonces.counter < Nonce.last ∧ o' = { o with nonces.counter := o.nonces.counter + 1 } := by
  unfold decrypt Nonces.next at h
  by_cases hlast : o.nonces.counter ≥ Nonce.last
  · rw [if_pos hlast] at h
    cases h
  · rw [if_neg hlast] at h
    simp only at h
    split at h
    · cases h
    · rename_i plaintext hplain
      split at h
      · cases h
      · rename_i g hdecode
        cases h
        have htext := Frame.eq_encode_of_decode hdecode
        rw [← htext]
        exact ⟨Crypto.Aead.eq_encrypt_of_decrypt? hplain, Nat.lt_of_not_ge hlast, rfl⟩

theorem inspect_frame {o o' : Opener} {c : Bytes} {f : Frame} (hc : c.length ≤ needed c)
    (h : o.inspect c = (.frame f, o')) :
    c = sealed o.key o.nonces.direction o.nonces.counter f ∧ f.Spellable ∧
      Admits o.maxPlaintext f ∧ o.nonces.counter < Nonce.last ∧
      o' = { o with nonces.counter := o.nonces.counter + 1 } := by
  unfold inspect at h
  split at h
  · cases h
  · rename_i h4
    split at h
    · cases h
    · rename_i hcheck
      split at h
      · cases h
      · rename_i hlong
        split at h
        · rename_i g o₁ hdecrypt
          cases h
          obtain ⟨hbody, hlast, ho⟩ := decrypt_ok hdecrypt
          have hneeded : needed c = Frame.prefixLength + declared c := by
            rw [needed, if_neg h4]
          have hhead : (c.take Frame.prefixLength).length = Frame.prefixLength := by
            rw [List.length_take]
            omega
          -- The declared length is that of the ciphertext, so the header spells it.
          have hdeclared : declared c = f.encode.length + Frame.tagLength := by
            have hlen := congrArg List.length hbody
            rw [List.length_drop, Crypto.Aead.length_encrypt] at hlen
            have htag : Crypto.Aead.tagLength = Frame.tagLength := rfl
            omega
          have hheader : Bytes.ofNatBE Frame.prefixLength (f.encode.length + Frame.tagLength) =
              c.take Frame.prefixLength := by
            have hspell := Bytes.ofNatBE_toNatBE (c.take Frame.prefixLength)
            rw [hhead] at hspell
            rw [← hdeclared]
            exact hspell
          refine ⟨?_, ?_, ?_, hlast, ho⟩
          · calc c = c.take Frame.prefixLength ++ c.drop Frame.prefixLength :=
                  (List.take_append_drop ..).symm
              _ = _ := by
                  rw [hbody, ← hheader]
                  rfl
          · have hlt := Bytes.toNatBE_lt (c.take Frame.prefixLength)
            rw [hhead] at hlt
            show f.encode.length + Frame.tagLength < UInt32.size
            rw [← hdeclared]
            exact hlt
          · rw [hdeclared] at hcheck
            exact hcheck
        · cases h

/-! ### One step of a read call -/

/-- Opening a ciphertext spends a nonce and changes nothing else. -/
theorem decrypt_snd (o : Opener) (header body : Bytes) :
    (o.decrypt header body).2 = { o with nonces := (o.decrypt header body).2.nonces } := by
  unfold decrypt
  split
  · rfl
  · simp only
    split
    · rfl
    · split <;> rfl

theorem inspect_snd (o : Opener) (c : Bytes) :
    (o.inspect c).2 = { o with nonces := (o.inspect c).2.nonces } := by
  unfold inspect
  split
  · rfl
  · split
    · rfl
    · split
      · rfl
      · have h := decrypt_snd o (c.take Frame.prefixLength) (c.drop Frame.prefixLength)
        split <;> rename_i hdecrypt <;> rw [hdecrypt] at h <;> exact h

theorem inspect_ahead (o : Opener) (c : Bytes) : (o.inspect c).2.ahead = o.ahead := by
  rw [inspect_snd]

theorem inspect_eq {o o' : Opener} {c : Bytes} {reading : Reading}
    (h : o.inspect c = (reading, o')) : o' = { o with nonces := o'.nonces } := by
  have hsame := inspect_snd o c
  rwa [h] at hsame

/-- A reader's buffer has room for something. -/
theorem capacity_ne_zero (o : Opener) : o.capacity ≠ 0 := by
  simp only [capacity, Frame.tagLength]
  omega

theorem take_capacity_ne_nil (o : Opener) {bs : Bytes} (hne : bs ≠ []) : bs.take o.capacity ≠ [] :=
  fun hnil => (List.take_eq_nil_iff.mp hnil).elim o.capacity_ne_zero hne

/-- What a step of a read call does: it reads bytes ahead, finds that the stream has ended between
two frames or inside one, or looks at what is collected. -/
inductive Stepped (o : Opener) (c : Bytes) (p : Pipe) : Reading → Opener → Pipe → Prop where
  | fills (hahead : o.ahead = []) (hheld : p.held ≠ []) :
      Stepped o c p (.partly c) { o with ahead := p.held.take o.capacity }
        { p with held := p.held.drop o.capacity }
  | ends (hahead : o.ahead = []) (hheld : p.held = []) (hclosed : p.closed = true) (hc : c = []) :
      Stepped o c p .ended o p
  | breaks (hahead : o.ahead = []) (hheld : p.held = []) (hclosed : p.closed = true)
      (hc : c ≠ []) : Stepped o c p (.failed (.io .unexpectedEof)) o p
  | inspects {reading o'} (hahead : o.ahead ≠ [])
      (hinspect : inspect { o with ahead := o.ahead.drop (needed c - c.length) }
        (c ++ o.ahead.take (needed c - c.length)) = (reading, o')) :
      Stepped o c p reading o' p

section
variable {o o' : Opener} {p p' : Pipe} {c c' : Bytes} {f : Frame} {reading : Reading}

theorem stepped_of_advance (h : o.advance c p = some (reading, o', p')) :
    Stepped o c p reading o' p' := by
  unfold advance at h
  split at h
  · rename_i hahead
    by_cases hheld : p.held = []
    · rw [Pipe.pull, if_pos hheld] at h
      cases hclosed : p.closed with
      | false =>
        rw [hclosed] at h
        cases h
      | true =>
        rw [hclosed] at h
        by_cases hc : c = []
        · cases h
          rw [if_pos hc]
          exact .ends hahead hheld hclosed hc
        · cases h
          rw [if_neg hc]
          exact .breaks hahead hheld hclosed hc
    · rw [Pipe.pull, if_neg hheld] at h
      split at h
      · cases h
      · rename_i hpull
        exact absurd (congrArg Prod.fst (Option.some.inj hpull)) (o.take_capacity_ne_nil hheld)
      · rename_i hpull
        cases hpull
        cases h
        exact .fills hahead hheld
  · rename_i hahead
    cases h
    exact .inspects hahead rfl

theorem key_advance (h : o.advance c p = some (reading, o', p')) : o'.key = o.key := by
  cases stepped_of_advance h with
  | fills
  | ends
  | breaks => rfl
  | inspects _ hinspect =>
    rw [inspect_eq hinspect]

/-- Reading takes bytes from a pipe and changes nothing else there. -/
theorem advance_pipe (h : o.advance c p = some (reading, o', p')) :
    p' = { p with held := p'.held } := by
  cases stepped_of_advance h <;> rfl

/-- Bytes leave the pipe from its front. -/
theorem advance_held (h : o.advance c p = some (reading, o', p')) :
    ∃ bs, bs ++ p'.held = p.held := by
  cases stepped_of_advance h with
  | fills => exact ⟨_, List.take_append_drop o.capacity p.held⟩
  | ends
  | breaks
  | inspects => exact ⟨[], rfl⟩

theorem advance_partly (hc : c.length < needed c) (h : o.advance c p = some (.partly c', o', p')) :
    c'.length < needed c' ∧ c' ++ o'.ahead ++ p'.held = c ++ o.ahead ++ p.held ∧
      o' = { o with ahead := o'.ahead } ∧ p' = { p with held := p'.held } := by
  cases stepped_of_advance h with
  | fills hahead =>
    refine ⟨hc, ?_, rfl, rfl⟩
    rw [hahead, List.append_nil, List.append_assoc, List.take_append_drop]
  | inspects _ hinspect =>
    obtain ⟨rfl, rfl, hlt⟩ := inspect_partly hinspect
    refine ⟨hlt, ?_, rfl, rfl⟩
    rw [List.append_assoc c, List.take_append_drop]

theorem advance_frame (hc : c.length < needed c) (h : o.advance c p = some (.frame f, o', p')) :
    c ++ o.ahead = sealed o.key o.nonces.direction o.nonces.counter f ++ o'.ahead ∧
      o' = { o with nonces.counter := o.nonces.counter + 1, ahead := o'.ahead } ∧ p' = p ∧
      f.Spellable ∧ Admits o.maxPlaintext f ∧ o.nonces.counter < Nonce.last := by
  cases stepped_of_advance h with
  | inspects _ hinspect =>
    have hcollect := length_collect_le hc o.ahead
    obtain ⟨hsealed, hspell, hadmits, hlast, rfl⟩ := inspect_frame hcollect hinspect
    refine ⟨?_, rfl, rfl, hspell, hadmits, hlast⟩
    rw [← hsealed, List.append_assoc, List.take_append_drop]

theorem advance_ended (h : o.advance c p = some (.ended, o', p')) :
    c = [] ∧ o.ahead = [] ∧ p.held = [] ∧ p.closed = true := by
  cases stepped_of_advance h with
  | ends hahead hheld hclosed hc => exact ⟨hc, hahead, hheld, hclosed⟩
  | inspects _ hinspect => exact absurd hinspect inspect_ne_ended

end

/-! ### Read calls on the bytes of a wire -/

theorem decrypt_sealed (o : Opener) (f : Frame) (hlast : o.nonces.counter < Nonce.last) :
    o.decrypt
        ((sealed o.key o.nonces.direction o.nonces.counter f).take Frame.prefixLength)
        ((sealed o.key o.nonces.direction o.nonces.counter f).drop Frame.prefixLength) =
      (.ok f, { o with nonces.counter := o.nonces.counter + 1 }) := by
  have htake := take_sealed o.key o.nonces.direction o.nonces.counter f []
  rw [List.append_nil] at htake
  have hnext : o.nonces.next = .ok (Nonce.encode o.nonces.direction o.nonces.counter,
      { o.nonces with counter := o.nonces.counter + 1 }) := by
    rw [Nonces.next, if_neg (Nat.not_le_of_lt hlast)]
  simp only [decrypt, htake, drop_sealed, hnext, decrypt?_pieces, Frame.decode_encode]

/-- Looking at the beginning of a frame that is admitted either asks for more or yields it. -/
theorem inspect_append {o : Opener} {c x y : Bytes} {f : Frame} (hc : c.length ≤ needed c)
    (hspell : f.Spellable) (hadmits : Admits o.maxPlaintext f)
    (hlast : o.nonces.counter < Nonce.last)
    (h : c ++ x = sealed o.key o.nonces.direction o.nonces.counter f ++ y) :
    o.inspect c = (.partly c, o) ∨
      o.inspect c = (.frame f, { o with nonces.counter := o.nonces.counter + 1 }) := by
  by_cases h4 : c.length < Frame.prefixLength
  · left
    rw [inspect, if_pos h4]
  · have htake : c.take Frame.prefixLength = (c ++ x).take Frame.prefixLength := by
      rw [List.take_append_of_le_length (by omega)]
    have hdeclared : declared c = f.encode.length + Frame.tagLength := by
      rw [← declared_sealed o.key o.nonces.direction (n := o.nonces.counter) hspell y, ← h,
        declared, declared, htake]
    have hneeded : needed c = (sealed o.key o.nonces.direction o.nonces.counter f).length := by
      rw [needed, if_neg h4, hdeclared, length_sealed]
    have hcheck : Frame.checkCiphertext (declared c) o.maxPlaintext = .ok () := by
      rw [hdeclared]
      exact hadmits
    by_cases hlt : c.length < needed c
    · left
      simp only [inspect, if_neg h4, hcheck, if_pos hlt]
    · right
      obtain ⟨rfl, -⟩ := List.append_inj h (by omega)
      simp only [inspect, if_neg h4, hcheck, if_neg hlt, decrypt_sealed o f hlast]

/-- The bytes still to be dispatched, collected or not, are the wire of these frames, all of
which can be taken. -/
structure Ahead (o : Opener) (c : Bytes) (p : Pipe) (coming : Bytes) (fs : List Frame) : Prop where
  bytes : c ++ o.ahead ++ p.held ++ coming =
    wire o.key o.nonces.direction o.nonces.counter fs
  short : c.length < needed c
  arrived : p.closed = true → coming = []
  frames : ∀ f ∈ fs, f.Spellable ∧ Admits o.maxPlaintext f
  nonces : fs ≠ [] → o.nonces.counter + fs.length ≤ Nonce.last

theorem short_nil : ([] : Bytes).length < needed [] := by decide

theorem Ahead.advance_partly {o o' : Opener} {c c' : Bytes} {p p' : Pipe} {coming : Bytes}
    {fs : List Frame} (hw : Ahead o c p coming fs)
    (h : o.advance c p = some (.partly c', o', p')) : Ahead o' c' p' coming fs := by
  obtain ⟨hshort, hbytes, ho, hp⟩ := Opener.advance_partly hw.short h
  refine ⟨?_, hshort, ?_, ?_, ?_⟩
  · rw [hbytes, hw.bytes, ho]
  · rw [hp]
    exact hw.arrived
  · rw [ho]
    exact hw.frames
  · rw [ho]
    exact hw.nonces

theorem Ahead.advance_frame {o o' : Opener} {c : Bytes} {p p' : Pipe} {coming : Bytes}
    {fs : List Frame} {f : Frame} (hw : Ahead o c p coming fs)
    (h : o.advance c p = some (.frame f, o', p')) :
    ∃ gs, fs = f :: gs ∧ Ahead o' [] p' coming gs := by
  obtain ⟨hbytes, ho, rfl, hspell, -, -⟩ := Opener.advance_frame hw.short h
  have hwire := hw.bytes
  rw [hbytes, List.append_assoc, List.append_assoc] at hwire
  cases fs with
  | nil =>
    rw [wire] at hwire
    exact absurd (List.append_eq_nil_iff.mp hwire).1 (sealed_ne_nil _ _ _ f)
  | cons g gs =>
    rw [wire] at hwire
    have hg := hw.frames g List.mem_cons_self
    obtain ⟨rfl, hrest⟩ := sealed_append_inj _ _ hspell hg.1 hwire
    refine ⟨gs, rfl, ?_, short_nil, hw.arrived, ?_, fun hne => ?_⟩
    · rw [List.nil_append, List.append_assoc, hrest, ho]
    · rw [ho]
      exact fun g' hg' => hw.frames g' (List.mem_cons_of_mem f hg')
    · have := hw.nonces (by simp)
      rw [List.length_cons] at this
      rw [ho]
      show o.nonces.counter + 1 + gs.length ≤ Nonce.last
      omega

theorem Ahead.advance_ended {o o' : Opener} {c : Bytes} {p p' : Pipe} {coming : Bytes}
    {fs : List Frame} (hw : Ahead o c p coming fs)
    (h : o.advance c p = some (.ended, o', p')) : fs = [] := by
  obtain ⟨rfl, hahead, hheld, hclosed⟩ := Opener.advance_ended h
  have hwire := hw.bytes
  rw [hahead, hheld, hw.arrived hclosed] at hwire
  exact (wire_eq_nil_iff ..).mp hwire.symm

/-- Where nothing is left but what is collected, nothing is collected either. -/
theorem Ahead.nothing_left {o : Opener} {c : Bytes} {p : Pipe} {fs : List Frame}
    (hw : Ahead o c p [] fs) (hahead : o.ahead = []) (hheld : p.held = []) : c = [] ∧ fs = [] := by
  have hwire := hw.bytes
  rw [hahead, hheld, List.append_nil, List.append_nil, List.append_nil] at hwire
  have hshort := hw.short
  rw [hwire] at hshort
  obtain rfl := eq_nil_of_wire _ _ (fun f hf => (hw.frames f hf).1) hshort
  exact ⟨hwire, rfl⟩

/-- Where anything is left, it begins with a frame that can be taken. -/
theorem Ahead.begins {o : Opener} {c : Bytes} {p : Pipe} {coming : Bytes} {fs : List Frame}
    (hw : Ahead o c p coming fs) {bs x : Bytes} (hne : bs ≠ [])
    (hbytes : bs ++ x = wire o.key o.nonces.direction o.nonces.counter fs) :
    ∃ f y, f.Spellable ∧ Admits o.maxPlaintext f ∧ o.nonces.counter < Nonce.last ∧
      bs ++ x = sealed o.key o.nonces.direction o.nonces.counter f ++ y := by
  cases fs with
  | nil => exact absurd (List.append_eq_nil_iff.mp hbytes).1 hne
  | cons f fs =>
    have hnonces := hw.nonces (List.cons_ne_nil f fs)
    rw [List.length_cons] at hnonces
    have hf := hw.frames f List.mem_cons_self
    exact ⟨f, _, hf.1, hf.2, by omega, hbytes⟩

theorem Ahead.not_failed {o o' : Opener} {c : Bytes} {p p' : Pipe} {coming : Bytes}
    {fs : List Frame} {e : Error} (hw : Ahead o c p coming fs) :
    o.advance c p ≠ some (.failed e, o', p') := by
  intro h
  cases stepped_of_advance h with
  | breaks hahead hheld hclosed hc =>
    obtain rfl := hw.arrived hclosed
    exact hc (hw.nothing_left hahead hheld).1
  | inspects hahead hinspect =>
    have hne : c ++ o.ahead.take (needed c - c.length) ≠ [] := by
      have hpos : 0 < o.ahead.length := List.length_pos_iff.mpr hahead
      have hshort := hw.short
      apply List.ne_nil_of_length_pos
      rw [List.length_append, List.length_take]
      omega
    have hsplit : (c ++ o.ahead.take (needed c - c.length)) ++
        (o.ahead.drop (needed c - c.length) ++ p.held ++ coming) =
        wire o.key o.nonces.direction o.nonces.counter fs := by
      rw [← hw.bytes]
      simp only [List.append_assoc]
      rw [← List.append_assoc (List.take _ _), List.take_append_drop]
    obtain ⟨f, y, hspell, hadmits, hlast, hbytes⟩ := hw.begins hne hsplit
    rcases inspect_append (o := { o with ahead := o.ahead.drop (needed c - c.length) })
      (length_collect_le hw.short o.ahead) hspell hadmits hlast hbytes with hgoes | hgoes <;>
      rw [hgoes] at hinspect <;> cases hinspect

/-! ### Reading a stream to its end -/

/-- Read calls follow one another while the bytes still `coming` arrive, in whatever pieces,
and the stream then ends: the frames they yield, and what the last one comes to. -/
inductive Reads : Opener → Bytes → Pipe → Bytes → List Frame → Reading → Prop where
  | arrives {o c p bs left p' coming fs r} (h : p.push bs = some (.ok (left, p')))
      (rest : Reads o c p' (left ++ coming) fs r) : Reads o c p (bs ++ coming) fs r
  | ends {o c p fs r} (rest : Reads o c p.close [] fs r) : Reads o c p [] fs r
  | partly {o c p coming c' o' p' fs r} (h : o.advance c p = some (.partly c', o', p'))
      (rest : Reads o' c' p' coming fs r) : Reads o c p coming fs r
  | frame {o c p coming f o' p' fs r} (h : o.advance c p = some (.frame f, o', p'))
      (rest : Reads o' [] p' coming fs r) : Reads o c p coming (f :: fs) r
  | ended {o c p coming o' p'} (h : o.advance c p = some (.ended, o', p')) :
      Reads o c p coming [] .ended
  | failed {o c p coming e o' p'} (h : o.advance c p = some (.failed e, o', p')) :
      Reads o c p coming [] (.failed e)

theorem Ahead.arrives {o : Opener} {c bs left coming : Bytes} {p p' : Pipe} {fs : List Frame}
    (hw : Ahead o c p (bs ++ coming) fs) (h : p.push bs = some (.ok (left, p'))) :
    Ahead o c p' (left ++ coming) fs := by
  refine ⟨?_, hw.short, fun hclosed => ?_, hw.frames, hw.nonces⟩
  · have hbytes := Pipe.push_conserves h
    rw [← hw.bytes]
    simp only [List.append_assoc]
    rw [← List.append_assoc p'.held, hbytes, List.append_assoc]
  · rw [Pipe.closed_of_push h] at hclosed
    cases hclosed

theorem Ahead.ends {o : Opener} {c : Bytes} {p : Pipe} {fs : List Frame} (hw : Ahead o c p [] fs) :
    Ahead o c p.close [] fs :=
  ⟨hw.bytes, hw.short, fun _ => rfl, hw.frames, hw.nonces⟩

/-- Whatever the order in which bytes arrive and are read, a wire yields its frames and a
clean end. -/
theorem reads_wire {o : Opener} {c coming : Bytes} {p : Pipe} {fs gs : List Frame} {r : Reading}
    (hw : Ahead o c p coming gs) (h : Reads o c p coming fs r) : fs = gs ∧ r = .ended := by
  induction h generalizing gs with
  | arrives h _ ih => exact ih (hw.arrives h)
  | ends _ ih => exact ih hw.ends
  | partly h _ ih => exact ih (hw.advance_partly h)
  | frame h _ ih =>
    obtain ⟨gs', rfl, hw'⟩ := hw.advance_frame h
    obtain ⟨rfl, hr⟩ := ih hw'
    exact ⟨rfl, hr⟩
  | ended h => exact ⟨(hw.advance_ended h).symm, rfl⟩
  | failed h => exact absurd h hw.not_failed

theorem Ahead.there {o : Opener} {c : Bytes} {p : Pipe} {f : Frame} {fs : List Frame}
    (hw : Ahead o c p [] (f :: fs)) : o.ahead ≠ [] ∨ p.held ≠ [] := by
  by_cases hahead : o.ahead = []
  · refine .inr fun hheld => ?_
    exact absurd (hw.nothing_left hahead hheld).2 (List.cons_ne_nil f fs)
  · exact .inl hahead

/-- Bytes still on their way, weighted by how many times each still moves. -/
def effort (o : Opener) (p : Pipe) (coming : Bytes) : Nat :=
  3 * coming.length + 2 * p.held.length + o.ahead.length

/-- Where something is there to be read, a read call goes on, and bytes move onward. -/
theorem Ahead.exists_advance {o : Opener} {c coming : Bytes} {p : Pipe} {fs : List Frame}
    (hw : Ahead o c p coming fs) (hthere : o.ahead ≠ [] ∨ p.held ≠ []) :
    ∃ reading o' p', o.advance c p = some (reading, o', p') ∧
      effort o' p' coming < effort o p coming ∧ p'.capacity = p.capacity := by
  by_cases hahead : o.ahead = []
  · have hheld : p.held ≠ [] := hthere.resolve_left fun hne => hne hahead
    have hpull : p.pull o.capacity =
        some (p.held.take o.capacity, { p with held := p.held.drop o.capacity }) := by
      rw [Pipe.pull, if_neg hheld]
    have htake := o.take_capacity_ne_nil hheld
    refine ⟨.partly c, { o with ahead := p.held.take o.capacity },
      { p with held := p.held.drop o.capacity }, ?_, ?_, rfl⟩
    · rw [advance, if_pos hahead, hpull]
      cases hbs : p.held.take o.capacity with
      | nil => exact absurd hbs htake
      | cons b bs => rfl
    · have hpos := List.length_pos_iff.mpr htake
      rw [List.length_take] at hpos
      simp only [effort, hahead, List.length_nil, List.length_drop, List.length_take]
      omega
  · refine ⟨_, _, p, by rw [advance, if_neg hahead], ?_, rfl⟩
    have hpos := List.length_pos_iff.mpr hahead
    have hshort := hw.short
    simp only [effort, inspect_ahead, List.length_drop]
    omega

/-- Reading waits only where there is nothing to read. -/
theorem empty_of_advance {o : Opener} {c : Bytes} {p : Pipe} (h : o.advance c p = none) :
    o.ahead = [] ∧ p.held = [] := by
  unfold advance at h
  split at h
  · rename_i hahead
    cases hpull : p.pull o.capacity with
    | none => exact ⟨hahead, Pipe.empty_of_pull hpull⟩
    | some x =>
      obtain ⟨bs, p'⟩ := x
      rw [hpull] at h
      cases bs <;> cases h
  · cases h

/-- Where nothing is there to be read, a read call waits for the end of the stream. -/
theorem advance_empty {o : Opener} {p : Pipe} (c : Bytes) (hahead : o.ahead = [])
    (hheld : p.held = []) :
    o.advance c p = if p.closed then
      some (if c = [] then .ended else .failed (.io .unexpectedEof), o, p) else none := by
  rw [advance, if_pos hahead, Pipe.pull, if_pos hheld]
  cases p.closed <;> rfl

/-- A step of a read call takes bytes onward, unless it finds the end of the stream. -/
theorem Ahead.effort_advance {o o' : Opener} {c coming : Bytes} {p p' : Pipe} {fs : List Frame}
    {reading : Reading} (hw : Ahead o c p coming fs)
    (h : o.advance c p = some (reading, o', p')) :
    effort o' p' coming ≤ effort o p coming ∧
      (reading ≠ .ended → effort o' p' coming < effort o p coming) := by
  by_cases hthere : o.ahead ≠ [] ∨ p.held ≠ []
  · obtain ⟨_, _, _, hadv, hless, -⟩ := hw.exists_advance hthere
    rw [h] at hadv
    cases hadv
    exact ⟨Nat.le_of_lt hless, fun _ => hless⟩
  · simp only [not_or, Decidable.not_not] at hthere
    have hnot : o.advance c p ≠ some (.failed (.io .unexpectedEof), o, p) := hw.not_failed
    rw [advance_empty c hthere.1 hthere.2] at h hnot
    split at h
    · rename_i hclosed
      rw [if_pos hclosed] at hnot
      cases h
      refine ⟨Nat.le_refl _, fun hne => ?_⟩
      split at hne
      · exact absurd rfl hne
      · rename_i hc
        rw [if_neg hc] at hnot
        exact absurd rfl hnot
    · cases h

/-- Reading a wire to its end is possible through any pipe that holds something. -/
theorem exists_reads {o : Opener} {c coming : Bytes} {p : Pipe} {fs : List Frame}
    (hw : Ahead o c p coming fs) (hcap : 0 < p.capacity) : Reads o c p coming fs .ended := by
  induction hm : effort o p coming using Nat.strongRecOn generalizing o c p coming fs with
  | ind m ih =>
    subst hm
    by_cases hthere : o.ahead ≠ [] ∨ p.held ≠ []
    · obtain ⟨reading, o', p', hadv, hless, hsame⟩ := hw.exists_advance hthere
      rw [← hsame] at hcap
      cases reading with
      | partly c' => exact .partly hadv (ih _ hless (hw.advance_partly hadv) hcap rfl)
      | frame f =>
        obtain ⟨gs, rfl, hw'⟩ := hw.advance_frame hadv
        exact .frame hadv (ih _ hless hw' hcap rfl)
      | ended =>
        rw [hw.advance_ended hadv]
        exact .ended hadv
      | failed e => exact absurd hadv hw.not_failed
    · have hahead : o.ahead = [] := Decidable.not_not.mp fun hne => hthere (.inl hne)
      have hheld : p.held = [] := Decidable.not_not.mp fun hne => hthere (.inr hne)
      cases coming with
      | nil =>
        obtain ⟨rfl, rfl⟩ := hw.nothing_left hahead hheld
        -- The pipe is empty: the stream ends, and the reader sees it.
        have hadv : o.advance [] p.close = some (.ended, o, p.close) := by
          rw [advance, if_pos hahead, Pipe.pull, Pipe.close, if_pos hheld, if_pos rfl]
          rfl
        exact .ends (.ended hadv)
      | cons b coming =>
        have hopen : p.closed = false := by
          cases hclosed : p.closed with
          | false => rfl
          | true => exact absurd (hw.arrived hclosed) (by simp)
        have hroom : p.room = p.capacity := by rw [Pipe.room, hheld]; rfl
        have hpush : p.push [b] = some (.ok ([], { p with held := p.held ++ [b] })) := by
          rw [Pipe.push, hopen, if_neg (by decide), if_neg (by omega),
            List.drop_eq_nil_of_le (by rw [List.length_singleton]; omega),
            List.take_of_length_le (by rw [List.length_singleton]; omega)]
        have hless : effort o { p with held := p.held ++ [b] } coming <
            effort o p (b :: coming) := by
          simp only [effort, List.length_cons, List.length_append, List.length_nil]
          omega
        have hw' : Ahead o c p ([b] ++ coming) fs := hw
        have hreads : Reads o c p ([b] ++ coming) fs .ended :=
          .arrives hpush (ih _ hless (hw'.arrives hpush) hcap rfl)
        exact hreads

/-- What is read to a clean end is a wire of frames that could be taken. -/
theorem wire_of_reads {o : Opener} {c coming : Bytes} {p : Pipe} {fs : List Frame}
    (h : Reads o c p coming fs .ended) (hshort : c.length < needed c)
    (harrived : p.closed = true → coming = []) :
    c ++ o.ahead ++ p.held ++ coming = wire o.key o.nonces.direction o.nonces.counter fs ∧
      (∀ f ∈ fs, f.Spellable ∧ Admits o.maxPlaintext f) ∧
      (fs ≠ [] → o.nonces.counter + fs.length ≤ Nonce.last) := by
  generalize hr : Reading.ended = r at h
  induction h with
  | @arrives o c p bs left p' coming fs r h _ ih =>
    obtain ⟨hbytes, hframes⟩ := ih hshort (by simp [Pipe.closed_of_push h]) hr
    refine ⟨?_, hframes⟩
    rw [← hbytes]
    have hpush := Pipe.push_conserves h
    simp only [List.append_assoc]
    rw [← List.append_assoc p'.held, hpush, List.append_assoc]
  | ends _ ih => exact ih hshort (fun _ => rfl) hr
  | partly h _ ih =>
    obtain ⟨hshort', hbytes, ho, hp⟩ := Opener.advance_partly hshort h
    obtain ⟨ihbytes, ihframes⟩ := ih hshort' (by rw [hp]; exact harrived) hr
    rw [hbytes] at ihbytes
    rw [ihbytes]
    rw [ho] at ihframes ⊢
    exact ⟨rfl, ihframes⟩
  | @frame o c p coming f o' p' fs r h _ ih =>
    obtain ⟨hbytes, ho, rfl, hspell, hadmits, hlast⟩ := Opener.advance_frame hshort h
    obtain ⟨ihbytes, ihframes, ihnonces⟩ := ih short_nil harrived hr
    rw [ho] at ihframes ihnonces
    refine ⟨?_, fun g hg => ?_, fun _ => ?_⟩
    · rw [hbytes, wire, List.append_assoc, List.append_assoc, ← List.append_assoc o'.ahead,
        ← List.nil_append o'.ahead, ihbytes, ho]
    · rcases List.mem_cons.mp hg with rfl | hg
      · exact ⟨hspell, hadmits⟩
      · exact ihframes g hg
    · rw [List.length_cons]
      cases fs with
      | nil => exact hlast
      | cons g gs =>
        have := ihnonces (by simp)
        simp only at this
        omega
  | ended h =>
    obtain ⟨rfl, hahead, hheld, hclosed⟩ := Opener.advance_ended h
    rw [hahead, hheld, harrived hclosed]
    exact ⟨rfl, by simp, fun hne => absurd rfl hne⟩
  | failed => cases hr

end Opener
end Parley.Channel
