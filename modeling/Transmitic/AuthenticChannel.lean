/-
  File:      Transmitic/AuthenticChannel.lean
  Subject:   AN AUTHENTIC, ORDERED CHANNEL. Two encrypted streams with one key, and a network that does
             what it likes.

  Both directions use one key, and each endpoint one counter for what it writes and what it reads. A
  message is one frame or two, and only the first says whether there is a second. That a frame is never
  taken for another one rests on the number it is encrypted under: both endpoints count every frame of
  the conversation, whoever makes it.

  * `ScriptTurn`, `followScript` -- a script of turns, and an endpoint that follows it;
  * `Conversation`, `adversary` -- two endpoints and between them a network that drops, repeats, reorders,
    cuts, reflects and makes up frames, with an ideal cipher;
  * `wp_followScript` -- what an endpoint encrypts, and what it takes;
  * `obtained_inOrder` -- **what a side obtains is what the other one wrote, from the start and in order**;
  * `inevitably_obtained` -- **and all of it, where every frame is delivered in order**, as long as the
    counter lasts.
-/
import Transmitic.FrameReader
import Transmitic.Parties
import Transmitic.SendLoop

namespace Transmitic

open Lib

/-! ## 1. Scripts and endpoints -/

/-- A turn of a script: one side writes a message, and the other one reads it. -/
structure ScriptTurn where
  writer : Side
  msg : UInt16
  payload : List UInt8
  small : payload.length ≤ maxDataSize

/-- How many turns an endpoint has begun, what it has set out to write, and what it has obtained. -/
structure Endpoint where
  begun : Nat
  wrote : List (UInt16 × List UInt8)
  obtained : List (UInt16 × Except Exc (List UInt8))

namespace Endpoint

def new : Endpoint := { begun := 0, wrote := [], obtained := [] }

def begin (me : Side) (turn : ScriptTurn) (e : Endpoint) : Endpoint :=
  { e with
    begun := e.begun + 1
    wrote := if turn.writer = me then e.wrote ++ [(turn.msg, turn.payload)] else e.wrote }

/-- The message in the buffer, as `get_message` and `get_payload` give it. -/
def obtain [Crates] (es : EncryptedStream) (e : Endpoint) : Endpoint :=
  { e with obtained := e.obtained ++ [(es.getMessage, es.getPayload)] }

end Endpoint

/-- A method of an endpoint. It has no commands of its own. -/
abbrev Ep (α : Type) : Type := Method Endpoint Empty.elim α

def takeTurn [Crates] (me : Side) (turn : ScriptTurn) : Ep Unit := do
  modifySelf (Endpoint.begin me turn)
  if turn.writer = me then write turn.msg turn.payload
  else
    read
    let es := (← get).encryptedStream
    modifySelf (Endpoint.obtain es)

/-- A side goes on to its next turn only if `write` or `read` returned `Ok`. -/
def followScript [Crates] (me : Side) : List ScriptTurn → Ep Unit
  | [] => pure ()
  | turn :: rest => do
    takeTurn me turn
    followScript me rest

/-! ## 2. The adversary -/

/-- The program of an endpoint. -/
abbrev EpProgram : Type := Prog (Thread Endpoint) (Wire ⊕ Empty) (Ans Empty.elim) Exc Unit

/-- The network is an adversary with every frame either side has encrypted, under the number it was
    encrypted under. The cipher is ideal: what decrypts under a number was encrypted under it. Anything
    may fail. -/
def adversary (frames : List Frame) : (c : Wire) → c.Ans → List Frame → Prop
  | .seal n plain, _, frames' => frames' = (n, plain) :: frames
  | .unseal n size, a, frames' => frames' = frames ∧ ∀ bytes, a = Unsealed.plain bytes →
      (n, bytes) ∈ frames ∧ bytes.length + cryptoExtensionSize = size

/-- The two endpoints, and the frames encrypted so far. -/
structure Conversation where
  program : Side → EpProgram
  frames : List Frame

/-- Two streams just made with one key, and one script for both. -/
def Conversation.new [Crates] (script : List ScriptTurn) (user : Side → SharedUser)
    (privateIdBytes : Side → List UInt8) : Conversation :=
  { program := fun X =>
      followScript X script ⟨Endpoint.new, EncryptedStream.new (user X) (privateIdBytes X)⟩
    frames := [] }

/-- One side issues a command, and the adversary answers. -/
inductive Conversation.Step (s : Conversation) : Conversation → Prop where
  | wire (X : Side) (t : Thread Endpoint) (c : Wire) (k : c.Ans → EpProgram) (a : c.Ans)
      (frames : List Frame) (hp : s.program X = .call t (.inl c) k)
      (hs : adversary s.frames c a frames) :
      Step s { program := Function.update s.program X (k a), frames }

inductive Conversation.Run (s : Conversation) : Conversation → Prop where
  | start : Run s s
  | step (s' s'' : Conversation) (h : Run s s') (hs : Conversation.Step s' s'') : Run s s''

/-! ## 3. The frames of a script -/

section Scripts

variable [Crates]

def ScriptTurn.frames (turn : ScriptTurn) : List (List UInt8) :=
  messageFrames (turn.msg, turn.payload)

/-- The frames of the turns, with the sides that make them. The place of a frame is the number it is
    encrypted under. -/
def scriptFrames (turns : List ScriptTurn) : List (Side × List UInt8) :=
  turns.flatMap fun turn => turn.frames.map fun plain => (turn.writer, plain)

omit [Crates] in
/-- What `X` writes in the turns. -/
def said (X : Side) (turns : List ScriptTurn) : List (UInt16 × List UInt8) :=
  (turns.filter fun turn => turn.writer = X).map fun turn => (turn.msg, turn.payload)

omit [Crates] in
/-- What is obtained of it. -/
def heard (X : Side) (turns : List ScriptTurn) : List (UInt16 × Except Exc (List UInt8)) :=
  (said X turns).map fun m => (m.1, .ok m.2)

/-- `X` makes the frame in the first `begun` turns. -/
def MadeBy (script : List ScriptTurn) (X : Side) (begun : Nat) (f : Frame) : Prop :=
  (scriptFrames (script.take begun))[f.1]? = some (X, f.2)

theorem scriptFrames_append (xs ys : List ScriptTurn) :
    scriptFrames (xs ++ ys) = scriptFrames xs ++ scriptFrames ys := List.flatMap_append

theorem scriptFrames_take_mono (script : List ScriptTurn) {i j : Nat} (h : i ≤ j) :
    scriptFrames (script.take i) <+: scriptFrames (script.take j) := by
  obtain ⟨rest, hrest⟩ := List.take_prefix_take_left (l := script) h
  rw [← hrest, scriptFrames_append]
  exact List.prefix_append _ _

omit [Crates] in
theorem said_append (X : Side) (xs ys : List ScriptTurn) :
    said X (xs ++ ys) = said X xs ++ said X ys := by
  simp [said]

omit [Crates] in
theorem said_take_mono (X : Side) (script : List ScriptTurn) {i j : Nat} (h : i ≤ j) :
    said X (script.take i) <+: said X (script.take j) := by
  obtain ⟨rest, hrest⟩ := List.take_prefix_take_left (l := script) h
  rw [← hrest, said_append]
  exact List.prefix_append _ _

theorem MadeBy.mono {script : List ScriptTurn} {X : Side} {i j : Nat} {f : Frame}
    (h : MadeBy script X i f) (hij : i ≤ j) : MadeBy script X j f := by
  obtain ⟨rest, hrest⟩ := scriptFrames_take_mono script hij
  unfold MadeBy at h ⊢
  rw [← hrest, List.getElem?_append_left (List.getElem?_eq_some_iff.mp h).1]
  exact h

variable {script pre rest : List ScriptTurn} {turn : ScriptTurn} {j : Nat} {plain : List UInt8}

omit [Crates] in
theorem take_turn (hs : script = pre ++ turn :: rest) :
    script.take (pre.length + 1) = pre ++ [turn] := by
  rw [hs]
  simp [List.take_append]

omit [Crates] in
theorem take_before (hs : script = pre ++ turn :: rest) : script.take pre.length = pre := by
  rw [hs]
  simp

/-- The `j`-th frame of a turn is made in that turn, by its writer. -/
theorem madeBy_turn (hs : script = pre ++ turn :: rest) (hj : turn.frames[j]? = some plain) :
    MadeBy script turn.writer (pre.length + 1) ((scriptFrames pre).length + j, plain) := by
  have hturn : scriptFrames [turn] = turn.frames.map fun plain => (turn.writer, plain) := by
    simp [scriptFrames]
  unfold MadeBy
  rw [take_turn hs, scriptFrames_append, List.getElem?_append_right (Nat.le_add_right _ _),
    Nat.add_sub_cancel_left, hturn, List.getElem?_map, hj]
  rfl

/-- **A frame with the number of a frame of a turn is that frame**, and is made in that turn. -/
theorem madeBy_unique (hs : script = pre ++ turn :: rest) (hj : turn.frames[j]? = some plain)
    {X : Side} {begun : Nat} {bytes : List UInt8}
    (h : MadeBy script X begun ((scriptFrames pre).length + j, bytes)) :
    X = turn.writer ∧ bytes = plain ∧ pre.length < begun := by
  rcases Nat.lt_or_ge pre.length begun with hlt | hle
  · have hmade := (madeBy_turn hs hj).mono hlt
    unfold MadeBy at h hmade
    rw [h] at hmade
    cases hmade
    exact ⟨rfl, rfl, hlt⟩
  · -- the frames of earlier turns have smaller numbers
    have hlen := (scriptFrames_take_mono script hle).length_le
    have hlt := (List.getElem?_eq_some_iff.mp h).1
    rw [take_before hs] at hlen
    dsimp only at hlt
    omega

/-! ## 4. What an endpoint encrypts, and what it takes -/

/-- How many turns the endpoint has begun, as far as the network knows, and how many the other one. -/
structure Turns where
  own : Nat
  other : Nat

/-- What an endpoint has written and obtained agrees with the script; and what it has obtained was made
    in turns the other one has begun. -/
structure FollowsScript (script : List ScriptTurn) (me : Side) (e : Endpoint) (w : Turns) : Prop where
  wrote : e.wrote = said me (script.take e.begun)
  obtained : ∃ k, k ≤ w.other ∧ e.obtained = heard me.other (script.take k)
  own : w.own ≤ e.begun

/-- The surroundings of an endpoint, for a script: it encrypts frames it has come to, and what decrypts
    is a frame of either side. -/
def onScript (script : List ScriptTurn) (me : Side) :
    Env (Thread Endpoint) (Wire ⊕ Empty) (Ans Empty.elim) Turns where
  ok w t c := FollowsScript script me t.self w ∧
    ∀ n plain, c = .inl (.seal n plain) → MadeBy script me t.self.begun (n, plain)
  step w t c a w' :=
    w'.own = t.self.begun ∧ w.other ≤ w'.other ∧
      match c, a with
      | .inl (.unseal n size), a => ∀ bytes, a = .plain bytes →
          bytes.length + cryptoExtensionSize = size ∧
            (MadeBy script me t.self.begun (n, bytes) ∨ MadeBy script me.other w'.other (n, bytes))
      | _, _ => True

/-- An endpoint that has followed the script through the turns `pre`. -/
structure AtTurn (script : List ScriptTurn) (me : Side) (pre : List ScriptTurn)
    (t : Thread Endpoint) (w : Turns) : Prop where
  begun : t.self.begun = pre.length
  wrote : t.self.wrote = said me pre
  obtained : t.self.obtained = heard me.other pre
  known : ∃ k, k ≤ w.other ∧ heard me.other pre = heard me.other (script.take k)
  own : w.own ≤ pre.length
  nonce : t.encryptedStream.nonce = (scriptFrames pre).length
  limit : t.encryptedStream.nonce ≤ nonceMax

/-- The endpoint in the turn after `pre`. -/
structure InTurn (script : List ScriptTurn) (me : Side) (pre : List ScriptTurn) (turn : ScriptTurn)
    (e : Endpoint) (w : Turns) : Prop where
  begun : e.begun = pre.length + 1
  wrote : e.wrote = said me (pre ++ [turn])
  obtained : e.obtained = heard me.other pre
  known : ∃ k, k ≤ w.other ∧ heard me.other pre = heard me.other (script.take k)
  own : w.own ≤ pre.length + 1

variable {me : Side} {t : Thread Endpoint} {w w' : Turns} {e : Endpoint}

theorem AtTurn.begins (h : AtTurn script me pre t w) (turn : ScriptTurn) :
    InTurn script me pre turn (t.self.begin me turn) w := by
  refine ⟨congrArg (· + 1) h.begun, ?_, h.obtained, h.known, Nat.le_succ_of_le h.own⟩
  show (if turn.writer = me then t.self.wrote ++ [(turn.msg, turn.payload)] else t.self.wrote) = _
  rw [h.wrote, said_append]
  split
  · rename_i hme
    simp [said, hme]
  · rename_i hme
    simp [said, hme]

omit [Crates] in
theorem InTurn.follows (h : InTurn script me pre turn e w) (hs : script = pre ++ turn :: rest) :
    FollowsScript script me e w := by
  refine ⟨?_, ?_, ?_⟩
  · rw [h.begun, take_turn hs, h.wrote]
  · obtain ⟨k, hk, hheard⟩ := h.known
    exact ⟨k, hk, h.obtained.trans hheard⟩
  · rw [h.begun]
    exact h.own

omit [Crates] in
/-- The turn goes on while the other side may begin more turns. -/
theorem InTurn.later (h : InTurn script me pre turn e w) (hown : w'.own = e.begun)
    (hother : w.other ≤ w'.other) : InTurn script me pre turn e w' := by
  refine ⟨h.begun, h.wrote, h.obtained, ?_, ?_⟩
  · obtain ⟨k, hk, hheard⟩ := h.known
    exact ⟨k, hk.trans hother, hheard⟩
  · rw [hown, h.begun]

theorem AtTurn.follows (h : AtTurn script me pre t w) (hs : script = pre ++ rest) :
    FollowsScript script me t.self w := by
  refine ⟨?_, ?_, ?_⟩
  · rw [h.begun, hs, List.take_left, h.wrote]
  · obtain ⟨k, hk, hheard⟩ := h.known
    exact ⟨k, hk, h.obtained.trans hheard⟩
  · rw [h.begun]
    exact h.own

theorem frames_header (turn : ScriptTurn) :
    turn.frames[0]? = some (header turn.msg turn.payload.length) := rfl

theorem frames_body (h : turn.payload ≠ []) : turn.frames[1]? = some (body turn.msg turn.payload) := by
  simp [ScriptTurn.frames, messageFrames, h]

theorem length_frames (turn : ScriptTurn) : turn.frames.length = frameCount turn.payload := by
  unfold ScriptTurn.frames messageFrames frameCount
  split
  · rfl
  · rfl

theorem length_scriptFrames_turn (pre : List ScriptTurn) (turn : ScriptTurn) :
    (scriptFrames (pre ++ [turn])).length = (scriptFrames pre).length + frameCount turn.payload := by
  rw [scriptFrames_append, List.length_append, ← length_frames]
  simp [scriptFrames]

/-- The counter is at the number of the frame. -/
theorem number_of_passed {k : Nat} {t' : Thread Endpoint} (hp : Passed t k t')
    (hn : t.encryptedStream.nonce = (scriptFrames pre).length)
    (hmax : t'.encryptedStream.nonce ≤ nonceMax) :
    t'.encryptedStream.getNonceBytes = (scriptFrames pre).length + k := by
  rw [getNonceBytes_eq hmax, hp.nonce, hn]

/-- A turn in which this side wrote is over. -/
theorem InTurn.written {t' : Thread Endpoint} (h : InTurn script me pre turn t.self w)
    (hme : turn.writer = me) (hn : t.encryptedStream.nonce = (scriptFrames pre).length)
    (hp : Passed t (frameCount turn.payload) t') (hmax : t'.encryptedStream.nonce ≤ nonceMax) :
    AtTurn script me (pre ++ [turn]) t' w := by
  have hheard : heard me.other (pre ++ [turn]) = heard me.other pre := by
    have hne : turn.writer ≠ me.other := by
      rw [hme]
      exact (Side.other_ne me).symm
    unfold heard
    rw [said_append]
    simp [said, hne]
  refine ⟨?_, ?_, ?_, ?_, ?_, ?_, hmax⟩
  · rw [hp.self, h.begun, List.length_append, List.length_singleton]
  · rw [hp.self, h.wrote]
  · rw [hp.self, h.obtained, hheard]
  · rw [hheard]
    exact h.known
  · rw [List.length_append, List.length_singleton]
    exact h.own
  · rw [length_scriptFrames_turn, hp.nonce, hn]

/-- **The frames this side makes in its turn are the next ones of the script.** -/
theorem wp_writeTurn (hs : script = pre ++ turn :: rest) (hme : turn.writer = me)
    (h : InTurn script me pre turn t.self w)
    (hn : t.encryptedStream.nonce = (scriptFrames pre).length)
    (hmax : t.encryptedStream.nonce ≤ nonceMax) :
    wp (onScript script me) (write turn.msg turn.payload : Ep Unit)
      (fun _ t' w' => AtTurn script me (pre ++ [turn]) t' w')
      (fun _ t' w' => FollowsScript script me t'.self w') t w := by
  have hmade : ∀ {k : Nat} {t' : Thread Endpoint} {plain : List UInt8}, Passed t k t' →
      t'.encryptedStream.nonce ≤ nonceMax → turn.frames[k]? = some plain →
      MadeBy script me t'.self.begun (t'.encryptedStream.getNonceBytes, plain) := by
    intro k t' plain hp hle hk
    rw [number_of_passed hp hn hle, hp.self, h.begun, ← hme]
    exact madeBy_turn hs hk
  have hlater : ∀ {k : Nat} {t' : Thread Endpoint} {w₁ w₂ : Turns}, Passed t k t' →
      InTurn script me pre turn t.self w₁ → w₂.own = t'.self.begun → w₁.other ≤ w₂.other →
      InTurn script me pre turn t.self w₂ := by
    intro k t' w₁ w₂ hp h₁ hown hother
    rw [hp.self] at hown
    exact h₁.later hown hother
  refine wp_write_numbered
    (J := fun w' => InTurn script me pre turn t.self w' ∧ t.encryptedStream.nonce < nonceMax)
    (fits_of_small turn.small) (fun t' hp => ?_) (fun hnil t' w' hp hJ => ?_) fun hne t' w' hp hJ => ?_
  · have hle : t'.encryptedStream.nonce ≤ nonceMax := by
      rw [hp.nonce]
      exact hmax
    refine ⟨⟨?_, fun n plain hc => ?_⟩, fun a w' hstep => ?_⟩
    · rw [hp.self]
      exact h.follows hs
    · cases hc
      exact hmade hp hle (frames_header turn)
    · have h' := hlater hp h hstep.1 hstep.2.1
      refine ⟨fun _ hlt => ⟨h', ?_⟩, fun _ e => ?_⟩
      · rw [hp.nonce] at hlt
        exact hlt
      · rw [hp.self]
        exact h'.follows hs
  · obtain ⟨h', hlt⟩ := hJ
    have hcount : frameCount turn.payload = 1 := if_pos hnil
    refine h'.written hme hn (hcount ▸ hp) ?_
    rw [hp.nonce]
    exact hlt
  · obtain ⟨h', hlt⟩ := hJ
    have hle : t'.encryptedStream.nonce ≤ nonceMax := by
      rw [hp.nonce]
      exact hlt
    refine ⟨⟨?_, fun n plain hc => ?_⟩, fun a w'' hstep => ?_⟩
    · rw [hp.self]
      exact h'.follows hs
    · cases hc
      exact hmade hp hle (frames_body hne)
    · have h'' := hlater hp h' hstep.1 hstep.2.1
      refine ⟨fun _ hlt' t'' hp' => ?_, fun _ e => ?_⟩
      · have hcount : frameCount turn.payload = 2 := if_neg hne
        refine h''.written hme hn (hcount ▸ hp') ?_
        rw [hp.nonce] at hlt'
        rw [hp'.nonce]
        exact hlt'
      · rw [hp.self]
        exact h''.follows hs

/-- What decrypts under the number of a frame of this turn is that frame, and the other side made it. -/
theorem taken_of_step {k size : Nat} {t' : Thread Endpoint} {w₁ w₂ : Turns} {bytes : List UInt8}
    (hs : script = pre ++ turn :: rest) (hother : turn.writer = me.other)
    (hk : turn.frames[k]? = some plain)
    (hn : t'.encryptedStream.getNonceBytes = (scriptFrames pre).length + k)
    (hstep : (onScript script me).step w₁ t'
      (.inl (.unseal t'.encryptedStream.getNonceBytes size)) (Unsealed.plain bytes) w₂) :
    bytes = plain ∧ pre.length < w₂.other := by
  obtain ⟨-, hmade⟩ := hstep.2.2 bytes rfl
  rw [hn] at hmade
  rcases hmade with hmade | hmade
  · obtain ⟨hme, -, -⟩ := madeBy_unique hs hk hmade
    rw [hother] at hme
    exact absurd hme.symm (Side.other_ne me)
  · obtain ⟨-, hbytes, hlt⟩ := madeBy_unique hs hk hmade
    exact ⟨hbytes, hlt⟩

/-- **What this side takes in a turn of the other one is the message of that turn.** -/
theorem wp_readTurn (hs : script = pre ++ turn :: rest) (hother : turn.writer = me.other)
    (h : InTurn script me pre turn t.self w)
    (hn : t.encryptedStream.nonce = (scriptFrames pre).length)
    (hmax : t.encryptedStream.nonce ≤ nonceMax) :
    wp (onScript script me) (read : Ep Unit)
      (fun _ t' w' => Passed t (frameCount turn.payload) t' ∧ t'.encryptedStream.nonce ≤ nonceMax ∧
        t'.encryptedStream.Holds turn.msg turn.payload ∧ InTurn script me pre turn t.self w' ∧
        pre.length < w'.other)
      (fun _ t' w' => FollowsScript script me t'.self w') t w := by
  have hlt32 : turn.payload.length < 2 ^ 32 := Nat.lt_of_le_of_lt turn.small (by decide)
  have hmsg : msgOf (header turn.msg turn.payload.length) = turn.msg := by
    simpa using msgOf_header turn.msg turn.payload.length []
  have hsize : sizeOf' (header turn.msg turn.payload.length) = turn.payload.length := by
    simpa using sizeOf'_header hlt32 turn.msg []
  have hlen : (header turn.msg turn.payload.length).length = payloadOffset := length_header _ _
  have hbodyLength : (body turn.msg turn.payload).length =
      announced (header turn.msg turn.payload.length) := by
    rw [length_body, announced, hmsg, hsize]
  have hroom : announced (header turn.msg turn.payload.length) ≤ maxDataSize + crcSize := by
    rw [announced, hmsg, hsize]
    have hsmall := turn.small
    split
    · omega
    · omega
  have hlater : ∀ {t' : Thread Endpoint} {w₁ w₂ : Turns}, t'.self = t.self →
      InTurn script me pre turn t.self w₁ → w₂.own = t'.self.begun → w₁.other ≤ w₂.other →
      InTurn script me pre turn t.self w₂ := by
    intro t' w₁ w₂ hself h₁ hown hle
    rw [hself] at hown
    exact h₁.later hown hle
  have hnumber : t.encryptedStream.getNonceBytes = (scriptFrames pre).length + 0 :=
    number_of_passed ⟨rfl, rfl⟩ hn hmax
  refine wp_read_numbered (J := fun front w' => front = header turn.msg turn.payload.length ∧
      InTurn script me pre turn t.self w' ∧ pre.length < w'.other ∧
      t.encryptedStream.nonce < nonceMax)
    ⟨⟨h.follows hs, fun n plain hc => by cases hc⟩, fun a w' hstep => ?_⟩
    (fun front bytes t' w' hp _ hb hJ hz => ?_) (fun front t' w' _ hJ hlong => ?_)
    fun front t' w' hp _ hJ hz => ?_
  · have h' := hlater rfl h hstep.1 hstep.2.1
    refine ⟨fun front ha => ?_, fun _ e => h'.follows hs⟩
    subst ha
    obtain ⟨hfront, hbegun⟩ := taken_of_step hs hother (frames_header turn) hnumber hstep
    refine ⟨by rw [hfront, hlen], fun hlt => ⟨hfront, h', hbegun, hlt⟩, fun _ e t' hself => ?_⟩
    rw [hself]
    exact h'.follows hs
  · obtain ⟨rfl, h', hbegun, hlt⟩ := hJ
    have hnil : turn.payload = [] := List.length_eq_zero_iff.mp (hsize.symm.trans hz)
    have hcount : frameCount turn.payload = 1 := if_pos hnil
    have hholds := holds_header hb hlen hz
    rw [hmsg, ← hnil] at hholds
    refine ⟨hcount ▸ hp, ?_, hholds, h', hbegun⟩
    rw [hp.nonce]
    exact hlt
  · obtain ⟨rfl, -⟩ := hJ
    have htotal : totalCryptoBufferSize = payloadOffset + maxDataSize + crcSize + cryptoExtensionSize :=
      rfl
    omega
  · obtain ⟨rfl, h', hbegun, hlt⟩ := hJ
    have hne : turn.payload ≠ [] := fun hnil => hz (by rw [hsize, hnil, List.length_nil])
    have hcount : frameCount turn.payload = 2 := if_neg hne
    have hle : t'.encryptedStream.nonce ≤ nonceMax := by
      rw [hp.nonce]
      exact hlt
    refine ⟨⟨?_, fun n plain hc => by cases hc⟩, fun a w'' hstep => ?_⟩
    · rw [hp.self]
      exact h'.follows hs
    · have h'' := hlater hp.self h' hstep.1 hstep.2.1
      have hends : ∀ t'' : Thread Endpoint, t''.self = t.self →
          FollowsScript script me t''.self w'' := by
        intro t'' hself
        rw [hself]
        exact h''.follows hs
      refine ⟨fun bytes ha => ?_, fun _ e t'' hself => hends t'' hself⟩
      subst ha
      obtain ⟨rfl, hbegun'⟩ := taken_of_step hs hother (frames_body hne)
        (number_of_passed hp hn hle) hstep
      refine ⟨fun hlt' t'' more hp' hb => ?_, fun _ e t'' hself => hends t'' hself,
        fun hover t'' hself => ?_⟩
      · have hholds := holds_body (by rw [hmsg]; exact hb) hlen hsize
        rw [hmsg] at hholds
        refine ⟨hcount ▸ hp', ?_, hholds, h'', hbegun'⟩
        rw [hp.nonce] at hlt'
        rw [hp'.nonce]
        exact hlt'
      · have htotal : totalBufferSize = payloadOffset + maxDataSize + crcSize := rfl
        omega

/-- **An endpoint in a turn**: it comes to the next one, or it has written and obtained nothing but what
    the script says. -/
theorem wp_takeTurn (hs : script = pre ++ turn :: rest) (h : AtTurn script me pre t w) :
    wp (onScript script me) (takeTurn me turn) (fun _ t' w' => AtTurn script me (pre ++ [turn]) t' w')
      (fun _ t' w' => FollowsScript script me t'.self w') t w := by
  have hin := h.begins turn
  refine (wp_bind _ _).mpr ?_
  show wp _ (if turn.writer = me then write turn.msg turn.payload else read >>= _) _ _
    (⟨t.self.begin me turn, t.encryptedStream⟩ : Thread Endpoint) w
  split
  · rename_i hme
    exact wp_writeTurn hs hme hin h.nonce h.limit
  · rename_i hme
    have hother : turn.writer = me.other := Side.eq_other hme
    refine wp_seq (wp_readTurn hs hother hin h.nonce h.limit) (fun _ t' w' h' => ?_)
      fun _ _ _ h' => h'
    obtain ⟨hp, hmax, hholds, h', hbegun⟩ := h'
    have hheard : heard me.other (pre ++ [turn]) =
        heard me.other pre ++ [(turn.msg, .ok turn.payload)] := by
      unfold heard
      rw [said_append, List.map_append]
      simp [said, hother]
    show AtTurn script me (pre ++ [turn])
      ⟨t'.self.obtain t'.encryptedStream, t'.encryptedStream⟩ w'
    have hself : t'.self = t.self.begin me turn := hp.self
    rw [hself]
    refine ⟨?_, h'.wrote, ?_, ⟨pre.length + 1, hbegun, by rw [take_turn hs]⟩, ?_, ?_, hmax⟩
    · show (t.self.begin me turn).begun = _
      rw [h'.begun, List.length_append, List.length_singleton]
    · show (t.self.begin me turn).obtained ++ [_] = _
      rw [h'.obtained, hheard, hholds.message, hholds.payload]
    · rw [List.length_append, List.length_singleton]
      exact h'.own
    · rw [length_scriptFrames_turn]
      exact hp.nonce.trans (congrArg (· + _) h.nonce)

/-- **An endpoint that follows its script**, over the turns it has before it. -/
theorem wp_followScript : ∀ (rest : List ScriptTurn) {pre : List ScriptTurn} {t : Thread Endpoint}
    {w : Turns}, script = pre ++ rest → AtTurn script me pre t w →
    wp (onScript script me) (followScript me rest)
      (fun _ t' w' => FollowsScript script me t'.self w')
      (fun _ t' w' => FollowsScript script me t'.self w') t w
  | [], pre, t, w, hs, h => h.follows hs
  | turn :: rest, pre, t, w, hs, h =>
    wp_seq (wp_takeTurn hs h) (fun _ _ _ h' => wp_followScript rest (by rw [hs]; simp) h')
      fun _ _ _ h' => h'

/-! ## 5. The conversation -/

/-- What the program of an endpoint still has to do keeps to the script, as far as the turns `w` have
    come. -/
def OnScript (script : List ScriptTurn) (me : Side) (p : EpProgram) (w : Turns) : Prop :=
  p.Holds (onScript script me) (fun _ t' w' => FollowsScript script me t'.self w')
    (fun _ t' w' => FollowsScript script me t'.self w') w

theorem OnScript.follows {p : EpProgram} (h : OnScript script me p w) :
    FollowsScript script me p.state.self w := by
  cases p with
  | ret a t => exact h
  | fail e t => exact h
  | call t c k => exact h.1.1

/-- How many turns a side has begun. -/
def Conversation.begun (s : Conversation) (X : Side) : Nat := (s.program X).state.self.begun

/-- Both endpoints keep to the script, each as far as the other one has come; and every frame is one its
    maker has come to. -/
structure Scripted (script : List ScriptTurn) (s : Conversation) : Prop where
  endpoint : ∀ X, ∃ w, w.other ≤ s.begun X.other ∧ OnScript script X (s.program X) w
  frames : ∀ f ∈ s.frames, ∃ X, MadeBy script X (s.begun X) f

/-- Before the first turn. -/
theorem scripted_new (script : List ScriptTurn) (user : Side → SharedUser)
    (privateIdBytes : Side → List UInt8) :
    Scripted script (Conversation.new script user privateIdBytes) := by
  refine ⟨fun X => ⟨⟨0, 0⟩, Nat.zero_le _, ?_⟩, fun f hf => absurd hf List.not_mem_nil⟩
  have hturn : AtTurn script X [] ⟨Endpoint.new, EncryptedStream.new (user X) (privateIdBytes X)⟩
      ⟨0, 0⟩ :=
    ⟨rfl, rfl, rfl, ⟨0, Nat.le_refl 0, rfl⟩, Nat.zero_le _, rfl, Nat.zero_le _⟩
  exact wp_followScript script rfl hturn

/-- **A step of either side, whatever the adversary does.** -/
theorem Scripted.step {s s' : Conversation} (h : Scripted script s) (hs : s.Step s') :
    Scripted script s' := by
  obtain ⟨X, t, c, k, a, frames, hp, hs⟩ := hs
  obtain ⟨w, hw, hX⟩ := h.endpoint X
  rw [hp] at hX
  have hbegun : s.begun X = t.self.begun := by
    unfold Conversation.begun
    rw [hp]
    rfl
  -- the network knows all turns begun so far
  let w' : Turns := ⟨t.self.begun, s.begun X.other⟩
  have hstep : (onScript script X).step w t (.inl c) a w' := by
    refine ⟨rfl, hw, ?_⟩
    cases c with
    | «seal» n plain => trivial
    | «unseal» n size =>
      intro bytes ha
      obtain ⟨-, hplain⟩ := hs
      obtain ⟨hmem, hlen⟩ := hplain bytes ha
      obtain ⟨Y, hY⟩ := h.frames _ hmem
      refine ⟨hlen, ?_⟩
      by_cases hYX : Y = X
      · subst hYX
        rw [hbegun] at hY
        exact .inl hY
      · have hother : Y = X.other := by
          cases X with
          | left =>
            cases Y with
            | left => exact absurd rfl hYX
            | right => rfl
          | right =>
            cases Y with
            | left => rfl
            | right => exact absurd rfl hYX
        rw [hother] at hY
        exact .inr hY
  have hnext : OnScript script X (k a) w' := hX.2 a w' hstep
  have hgrown : t.self.begun ≤ (k a).state.self.begun := hnext.follows.own
  have hmono : ∀ Y, s.begun Y ≤
      Conversation.begun { program := Function.update s.program X (k a), frames } Y := by
    intro Y
    unfold Conversation.begun
    by_cases hYX : Y = X
    · subst hYX
      dsimp only
      rw [Function.update_self, hp]
      exact hgrown
    · dsimp only
      rw [Function.update_of_ne hYX]
  refine ⟨fun Y => ?_, fun f hf => ?_⟩
  · by_cases hYX : Y = X
    · subst hYX
      refine ⟨w', hmono _, ?_⟩
      dsimp only
      rw [Function.update_self]
      exact hnext
    · obtain ⟨wY, hwY, hY⟩ := h.endpoint Y
      refine ⟨wY, hwY.trans (hmono _), ?_⟩
      dsimp only
      rw [Function.update_of_ne hYX]
      exact hY
  · have hold : f ∈ s.frames → ∃ Y, MadeBy script Y (Conversation.begun
        { program := Function.update s.program X (k a), frames } Y) f := by
      intro hmem
      obtain ⟨Y, hY⟩ := h.frames f hmem
      exact ⟨Y, hY.mono (hmono Y)⟩
    cases c with
    | «seal» n plain =>
      obtain rfl : frames = (n, plain) :: s.frames := hs
      rcases List.mem_cons.mp hf with rfl | hmem
      · refine ⟨X, MadeBy.mono ?_ (hmono X)⟩
        rw [hbegun]
        exact hX.1.2 n plain rfl
      · exact hold hmem
    | «unseal» n size =>
      obtain ⟨rfl, -⟩ := hs
      exact hold hf

theorem scripted_run {s s' : Conversation} (h : Scripted script s) (hr : s.Run s') :
    Scripted script s' := by
  induction hr with
  | start => exact h
  | step s' s'' _ hs ih => exact ih.step hs

/-! ## 6. In-order delivery -/

/-- The script as a protocol of messages. Its state is the turns to come. -/
def scriptProtocol : MessageProtocol (List ScriptTurn) where
  turn
    | [] => .left
    | turn :: _ => turn.writer
  opens
    | [], _, _ => false
    | turn :: _, msg, size => turn.msg = msg && turn.payload.length = size
  deliver
    | [], _, _ => none
    | turn :: rest, msg, payload => if (turn.msg, turn.payload) = (msg, payload) then some rest else none
  delivers s msg size h := by
    cases s with
    | nil => cases h
    | cons turn rest =>
      simp only [Bool.and_eq_true, decide_eq_true_eq] at h
      obtain ⟨rfl, hsize⟩ := h
      exact ⟨turn.payload, rest, hsize, if_pos rfl⟩
  small s msg size h := by
    cases s with
    | nil => cases h
    | cons turn rest =>
      simp only [Bool.and_eq_true, decide_eq_true_eq] at h
      rw [← h.2]
      exact turn.small

/-- An endpoint has no commands of its own. -/
def nothingElse : Env (Thread Endpoint) Empty Empty.elim Unit where
  ok _ _ _ := True
  step _ _ _ _ _ := True

theorem length_scriptFrames_cons (turn : ScriptTurn) (rest : List ScriptTurn) :
    (scriptFrames (turn :: rest)).length = frameCount turn.payload + (scriptFrames rest).length := by
  rw [← length_frames]
  simp [scriptFrames]

/-- What an endpoint has written and obtained at the end of the turns it had before it. -/
def Completed (me : Side) (turns : List ScriptTurn) (e e' : Endpoint) : Prop :=
  e'.wrote = e.wrote ++ said me turns ∧ e'.obtained = e.obtained ++ heard me.other turns

omit [Crates] in
/-- One turn, and then the others. -/
theorem Completed.cons {e e₁ e₂ : Endpoint} (h₁ : Completed me [turn] e e₁)
    (h₂ : Completed me rest e₁ e₂) : Completed me (turn :: rest) e e₂ := by
  obtain ⟨hw₁, ho₁⟩ := h₁
  obtain ⟨hw₂, ho₂⟩ := h₂
  have hs : said me (turn :: rest) = said me [turn] ++ said me rest := said_append me [turn] rest
  have hh : heard me.other (turn :: rest) = heard me.other [turn] ++ heard me.other rest := by
    unfold heard
    rw [← List.map_append, ← said_append, List.singleton_append]
  refine ⟨?_, ?_⟩
  · rw [hw₂, hw₁, hs, List.append_assoc]
  · rw [ho₂, ho₁, hh, List.append_assoc]

/-- **An endpoint whose connection does not break goes through the whole script**, or the counter does
    not last. -/
theorem wp_followScript_delivered : ∀ (turns : List ScriptTurn) {t : Thread Endpoint} {n : Nat},
    t.encryptedStream.nonce = n → n ≤ nonceMax →
    wp (onWire scriptProtocol me False nothingElse) (followScript me turns)
      (fun _ t' w' => Completed me turns t.self t'.self ∧ n + (scriptFrames turns).length ≤ nonceMax ∧
        ∃ n, w'.2 = some ⟨[], n, none⟩)
      (fun _ _ _ => nonceMax < n + (scriptFrames turns).length) t ((), some ⟨turns, n, none⟩)
  | [], t, n, hn, hmax => by
    refine ⟨⟨?_, ?_⟩, hmax, n, rfl⟩
    · exact (List.append_nil _).symm
    · exact (List.append_nil _).symm
  | turn :: rest, t, n, hn, hmax => by
    rw [length_scriptFrames_cons]
    have hopen : scriptProtocol.opens (turn :: rest) turn.msg turn.payload.length = true := by
      simp [scriptProtocol]
    have hdeliver : scriptProtocol.deliver (turn :: rest) turn.msg turn.payload = some rest :=
      if_pos rfl
    -- the message of the protocol is the message of the turn
    have hmessage : ∀ {msg payload s'}, scriptProtocol.deliver (turn :: rest) msg payload = some s' →
        (turn.msg, turn.payload) = (msg, payload) := by
      intro msg payload s' hs'
      by_contra hne
      have hnone : scriptProtocol.deliver (turn :: rest) msg payload = none := if_neg hne
      rw [hnone] at hs'
      cases hs'
    -- the turn, and then the rest of the script
    have hrest : ∀ {t' : Thread Endpoint}, Completed me [turn] t.self t'.self →
        t'.encryptedStream.nonce = n + frameCount turn.payload →
        n + frameCount turn.payload ≤ nonceMax →
        wp (onWire scriptProtocol me False nothingElse) (followScript me rest)
          (fun _ t' w' => Completed me (turn :: rest) t.self t'.self ∧
            n + (frameCount turn.payload + (scriptFrames rest).length) ≤ nonceMax ∧
            ∃ n, w'.2 = some ⟨[], n, none⟩)
          (fun _ _ _ => nonceMax < n + (frameCount turn.payload + (scriptFrames rest).length)) t'
          ((), some ⟨rest, n + frameCount turn.payload, none⟩) := by
      intro t' hdone hn' hmax'
      rw [← Nat.add_assoc]
      refine wp_conseq (wp_followScript_delivered rest hn' hmax') (fun _ t'' w'' h => ?_)
        fun _ _ _ h => h
      exact ⟨hdone.cons h.1, h.2⟩
    refine (wp_bind _ _).mpr ((wp_bind _ _).mpr ?_)
    show wp _ (if turn.writer = me then write turn.msg turn.payload else read >>= _) _ _
      (⟨t.self.begin me turn, t.encryptedStream⟩ : Thread Endpoint) _
    split
    · rename_i hme
      have hne : turn.writer ≠ me.other := by
        rw [hme]
        exact (Side.other_ne me).symm
      refine wp_write hn hmax hme hopen hdeliver (fun nonce buffer hcount hle => ?_)
        fun e t' v _ hfail => ?_
      · subst hcount
        refine hrest ⟨?_, ?_⟩ rfl hle
        · show (if turn.writer = me then _ else _) = _
          simp [said, hme]
        · show t.self.obtained = _
          simp [heard, said, hne]
      · rcases hfail with hfail | hfail
        · exact hfail.elim
        · omega
    · rename_i hme
      have hother : turn.writer = me.other := Side.eq_other hme
      refine (wp_bind _ _).mpr (wp_read hn hmax hother ⟨_, _, hopen⟩
        (fun msg payload s' nonce buffer _ hs' hcount hle hholds => ?_) fun e t' v _ hfail => ?_)
      · cases hmessage hs'
        rw [hdeliver] at hs'
        cases hs'
        subst hcount
        refine hrest ⟨?_, ?_⟩ rfl hle
        · show (if turn.writer = me then _ else _) = _
          simp [said, hme]
        · show t.self.obtained ++ [_] = _
          rw [hholds.message, hholds.payload]
          simp [heard, said, hother]
      · rcases hfail with hfail | ⟨msg, payload, s', _, hs', hfull⟩
        · exact hfail.elim
        · cases hmessage hs'
          omega

/-- An endpoint whose frames are all delivered, in order. -/
abbrev delivered : Party Frame (Nat × Nat) := party Unit False nothingElse

/-- The endpoint keeps to the script from a view on; the counter does not last where it fails. -/
def Delivers (script : List ScriptTurn) (me : Side) :
    delivered.State → Option (View (List ScriptTurn)) → Prop :=
  Aboard (onWire scriptProtocol me False nothingElse)
    (fun _ t' w' => Completed me script Endpoint.new t'.self ∧
      (scriptFrames script).length ≤ nonceMax ∧ ∃ n, w'.2 = some ⟨[], n, none⟩)
    (fun _ _ _ => nonceMax < (scriptFrames script).length)

/-- The two endpoints on a connection that delivers. -/
def deliveredLink (script : List ScriptTurn) (user : Side → SharedUser)
    (privateIdBytes : Side → List UInt8) : Link delivered delivered :=
  { left := ((Conversation.new script user privateIdBytes).program .left, ())
    right := ((Conversation.new script user privateIdBytes).program .right, ())
    toLeft := []
    toRight := []
    log := [] }

/-- Both endpoints returned from their last call, and each has obtained all the other one wrote: the
    messages of the script. -/
def AllObtained (script : List ScriptTurn) (s : Link delivered delivered) : Prop :=
  ∃ t t', s.left.1 = .ret () t ∧ s.right.1 = .ret () t' ∧
    t.self.wrote = said .left script ∧ t'.self.wrote = said .right script ∧
    t.self.obtained = t'.self.wrote.map (fun m => (m.1, .ok m.2)) ∧
    t'.self.obtained = t.self.wrote.map (fun m => (m.1, .ok m.2))

variable {user : Side → SharedUser} {privateIdBytes : Side → List UInt8}

theorem delivers_new (X : Side) : Delivers script X
    ((Conversation.new script user privateIdBytes).program X, ()) (some ⟨script, nonceInit, none⟩) := by
  refine .inl ?_
  let t : Thread Endpoint := ⟨Endpoint.new, EncryptedStream.new (user X) (privateIdBytes X)⟩
  have h : wp (onWire scriptProtocol X False nothingElse) (followScript X script) _ _ t
      ((), some ⟨script, nonceInit, none⟩) := wp_followScript_delivered script rfl (Nat.zero_le _)
  rw [show nonceInit + (scriptFrames script).length = (scriptFrames script).length from
    Nat.zero_add _] at h
  exact h

theorem nothing_over {v : View (List ScriptTurn)} {n : Nat} (h : v = ⟨[], n, none⟩) :
    scriptProtocol.frames.Over v := by
  intro f
  subst h
  show scriptProtocol.next _ f = none
  unfold MessageProtocol.next
  split
  · rfl
  · simp [scriptProtocol]

/-- At the end of the script, the endpoint has returned from its last call. -/
theorem ended_of_over {s : delivered.State} {v : View (List ScriptTurn)}
    (h : Delivers script me s (some v)) (hover : scriptProtocol.frames.Over v)
    (hroom : (scriptFrames script).length ≤ nonceMax) :
    ∃ t, s.1 = .ret () t ∧ Completed me script Endpoint.new t.self := by
  obtain ⟨p, u⟩ := s
  cases p with
  | ret a t =>
    refine ⟨t, rfl, ?_⟩
    rcases h with h | h
    · exact h.1
    · exact h.1
  | fail e t =>
    have hfull : nonceMax < (scriptFrames script).length := by
      rcases h with h | h
      · exact h
      · exact h
    omega
  | call t c k =>
    exfalso
    have hnone : ∀ f, ¬ (scriptProtocol.next v f).isSome := by
      intro f hf
      have hf' : scriptProtocol.next v f = none := hover f
      rw [hf'] at hf
      cases hf
    cases c with
    | inr c => exact c.elim
    | inl c =>
      cases c with
      | «seal» n plain =>
        rcases h with h | h
        · obtain ⟨u, hu, -, hnext⟩ := h.1
          cases hu
          exact hnone _ hnext
        · exact not_seals h.1
      | «unseal» n size =>
        rcases h with h | h
        · obtain ⟨u, hu, -, ⟨f, hf⟩, -⟩ := h.1
          cases hu
          exact hnone f hf
        · exact not_unseals h.1

/-- **Where every frame is delivered, in order, all reads succeed and each side obtains all the other one
    wrote**, as long as the counter lasts; and only then. -/
theorem inevitably_obtained (script : List ScriptTurn) (user : Side → SharedUser)
    (privateIdBytes : Side → List UInt8) :
    Inevitable (Link.Step fits) (AllObtained script) (deliveredLink script user privateIdBytes) ↔
      (scriptFrames script).length ≤ nonceMax := by
  have hbalanced : Balanced scriptProtocol.frames .left (Delivers script .left)
      (Delivers script .right) (deliveredLink script user privateIdBytes) :=
    balanced_start (delivers_new .left) (delivers_new .right)
  constructor
  · intro h
    obtain ⟨s, hr, t, t', ht, -⟩ := h.run
    obtain ⟨a, ha⟩ := (balanced_run (conforms_party wired_onWire) (conforms_party wired_onWire) hbalanced hr).left_view
    unfold Aboard at ha
    rw [ht] at ha
    rcases ha with ha | ha
    · exact ha.2.1
    · exact ha.2.1
  · intro hroom
    have hdiligent : ∀ X, Diligent scriptProtocol.frames fits delivered (Delivers script X) := by
      intro X
      refine diligent_party wired_onWire (fun _ _ c _ => c.elim) (fun a t w v h => ?_) fun e t w h => ?_
      · obtain ⟨-, -, n, hv⟩ := h
        exact ⟨_, hv, nothing_over rfl⟩
      · omega
    have hover := inevitably_over (conforms_party wired_onWire) (conforms_party wired_onWire) (hdiligent .left)
      (hdiligent .right) (acc_link _) hbalanced
    refine hover.mono fun s h => ?_
    obtain ⟨v, -, -, hl, hr, hv⟩ := h
    obtain ⟨t, ht, hwrote, hobtained⟩ := ended_of_over hl hv hroom
    obtain ⟨t', ht', hwrote', hobtained'⟩ := ended_of_over hr hv hroom
    refine ⟨t, t', ht, ht', hwrote, hwrote', ?_, ?_⟩
    · rw [hobtained, hwrote']
      rfl
    · rw [hobtained', hwrote]
      rfl

/-! ## 7. In-order delivery is something the adversary may do -/

omit [Crates] in
/-- The two endpoints of a connection, in the hands of the adversary. -/
def Conversation.ofLink (s : Link delivered delivered) : Conversation :=
  { program := fun X =>
      match X with
      | .left => s.left.1
      | .right => s.right.1
    frames := s.log.reverse }

omit [Crates] in
/-- What is on the way was made. -/
def OnTheWay (s : Link delivered delivered) : Prop :=
  (∀ f ∈ s.toLeft, f ∈ s.log) ∧ ∀ f ∈ s.toRight, f ∈ s.log

omit [Crates] in
/-- A step of one party is a step of its endpoint, and what is on the way was made. -/
theorem adversary_of_leftStep {s s' : Link delivered delivered} {l : Label Frame (Nat × Nat)}
    (hway : OnTheWay s) (hs : Link.LeftStep fits s l s') :
    OnTheWay s' ∧ s'.right = s.right ∧ ∃ t c k a, s.left.1 = .call t (.inl c) k ∧ s'.left.1 = k a ∧
      adversary s.log.reverse c a s'.log.reverse := by
  obtain ⟨hleft, hright⟩ := hway
  cases hs with
  | tau p hstep =>
    obtain ⟨t, c, -⟩ := hstep
    exact c.elim
  | send p f d hstep =>
    obtain ⟨t, k, a, hp, hk, -, ⟨rfl, rfl⟩ | ⟨-, hno⟩⟩ := hstep
    · refine ⟨⟨fun g hg => List.mem_append_left _ (hleft g hg), fun g hg => ?_⟩, rfl, t, _, k,
        Sealed.done, hp, hk, ?_⟩
      · rcases List.mem_append.mp hg with hg | hg
        · exact List.mem_append_left _ (hright g hg)
        · exact List.mem_append_right _ hg
      · show (s.log ++ [f]).reverse = (f.1, f.2) :: s.log.reverse
        simp
    · exact hno.elim
  | recv p r f rest hstep hq hfits =>
    obtain ⟨t, k, hp, hn, hk, -⟩ := hstep
    refine ⟨⟨fun g hg => hleft g (by rw [hq]; exact List.mem_cons_of_mem f hg), hright⟩, rfl, t, _, k,
      Unsealed.plain f.2, hp, hk, rfl, fun bytes hb => ?_⟩
    cases hb
    have hmem : f ∈ s.log := hleft f (by rw [hq]; exact List.mem_cons_self)
    rw [← hn]
    exact ⟨List.mem_reverse.mpr hmem, hfits.2⟩
  | broken p r hstep => exact hstep.1.elim

omit [Crates] in
/-- **In-order delivery is something the adversary may do.** -/
theorem adversary_of_run {s s' : Link delivered delivered} (hway : OnTheWay s)
    (hr : Link.Run fits s s') :
    OnTheWay s' ∧ (Conversation.ofLink s).Run (Conversation.ofLink s') := by
  induction hr with
  | start => exact ⟨hway, .start⟩
  | step t t' _ hs ih =>
    obtain ⟨hway', hrun⟩ := ih
    cases hs with
    | left l hs =>
      obtain ⟨hway'', hright, th, c, k, a, hp, hk, hadv⟩ := adversary_of_leftStep hway' hs
      have hstep := Conversation.Step.wire (s := .ofLink t) .left th c k a t'.log.reverse hp hadv
      have hnext : Conversation.ofLink t' =
          { program := Function.update (Conversation.ofLink t).program .left (k a)
            frames := t'.log.reverse } := by
        unfold Conversation.ofLink
        congr 1
        funext X
        cases X with
        | left => exact hk
        | right => exact congrArg Prod.fst hright
      rw [hnext]
      exact ⟨hway'', .step _ _ hrun hstep⟩
    | right l hs =>
      have hswap : OnTheWay t.swap := hway'.symm
      obtain ⟨hway'', hleft, th, c, k, a, hp, hk, hadv⟩ := adversary_of_leftStep hswap hs
      have hleft : t'.left = t.left := hleft
      have hstep := Conversation.Step.wire (s := .ofLink t) .right th c k a t'.log.reverse hp hadv
      have hnext : Conversation.ofLink t' =
          { program := Function.update (Conversation.ofLink t).program .right (k a)
            frames := t'.log.reverse } := by
        unfold Conversation.ofLink
        congr 1
        funext X
        cases X with
        | left => exact congrArg Prod.fst hleft
        | right => exact hk
      rw [hnext]
      exact ⟨hway''.symm, .step _ _ hrun hstep⟩

/-! ## 8. What a side obtains -/

/-- **An authentic, ordered channel**: whatever script two endpoints with one key follow, and whatever
    the network does, what a side has obtained is the start of what the other one has set out to
    write, message by message, each with its type and its payload. -/
theorem obtained_inOrder (script : List ScriptTurn) (user : Side → SharedUser)
    (privateIdBytes : Side → List UInt8) {s : Conversation}
    (hr : (Conversation.new script user privateIdBytes).Run s) (X : Side) :
    (s.program X).state.self.obtained <+:
      (s.program X.other).state.self.wrote.map fun m => (m.1, .ok m.2) := by
  have h := scripted_run (scripted_new script user privateIdBytes) hr
  obtain ⟨w, hw, hX⟩ := h.endpoint X
  obtain ⟨w', -, hY⟩ := h.endpoint X.other
  obtain ⟨k, hk, hobtained⟩ := hX.follows.obtained
  have hle : k ≤ (s.program X.other).state.self.begun := hk.trans hw
  rw [hobtained, hY.follows.wrote]
  exact (said_take_mono X.other script hle).map _

end Scripts

/-- The left side asks for the file list, and the right one answers. -/
def askAndAnswer : List ScriptTurn :=
  [{ writer := .left, msg := msgFileList, payload := [], small := Nat.zero_le _ },
    { writer := .right, msg := msgFileListFinal, payload := [123, 125], small := by decide }]

/-- In one of the runs both have obtained their messages. -/
theorem obtained_inOrder_answer : ∃ s : Conversation,
    (s.program .left).state.self.obtained = [(msgFileListFinal, .ok [123, 125])] ∧
      (s.program .left).state.self.obtained <+:
        (s.program .right).state.self.wrote.map fun m => (m.1, .ok m.2) := by
  have hroom : (@scriptFrames idleCrates askAndAnswer).length ≤ nonceMax := by decide
  let user : Side → SharedUser := fun _ => freshStream.sharedUser
  obtain ⟨s, hr, t, t', ht, ht', -, hwrote, hobtained, -⟩ :=
    ((@inevitably_obtained idleCrates askAndAnswer user fun _ => []).mpr hroom).run
  have hrun := (adversary_of_run ⟨fun _ h => absurd h List.not_mem_nil,
    fun _ h => absurd h List.not_mem_nil⟩ hr).2
  have hnew : Conversation.ofLink (@deliveredLink idleCrates askAndAnswer user fun _ => []) =
      @Conversation.new idleCrates askAndAnswer user fun _ => [] := by
    unfold Conversation.ofLink
    congr 1
    funext X
    cases X
    · rfl
    · rfl
  rw [hnew] at hrun
  refine ⟨_, ?_, @obtained_inOrder idleCrates askAndAnswer user (fun _ => []) _ hrun .left⟩
  show s.left.1.state.self.obtained = _
  rw [ht]
  show t.self.obtained = _
  rw [hobtained, hwrote]
  rfl

end Transmitic
