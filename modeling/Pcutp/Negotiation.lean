import Pcutp.Handshake

/-!
# What a greeting settles

The capability words that one end prints, read by `options` at the other, and
what each machine of the greeting does with every line that the other one
sends.  The two ends take the same window, block limit and flags from it.
-/

namespace Pcutp

section Options

variable {values : Capabilities} {tokens : List Line}

theorem partition_capability
    {key : String} (hkey : '=' ∉ key.toList) (n : Nat) :
    partition (capability key n) = (key.toList, some (dec n)) := by
  have hall : ∀ c ∈ key.toList, (c != '=') = true := by
    intro c hc
    simp only [bne_iff_ne, ne_eq]
    rintro rfl
    exact hkey hc
  simp only [partition, capability, List.takeWhile_append_of_pos hall,
    List.dropWhile_append_of_pos hall]
  simp

/-- A known key that is new takes its value. -/
theorem optionsFrom_capability
    {key : String} {c : Capability} {n : Nat}
    (hkey : '=' ∉ key.toList) (hc : Capability.ofKey key.toList = some c)
    (hnew : values c = none) (hn : 1 ≤ n ∧ n ≤ Const.MAX_CAPABILITY) :
    optionsFrom values (capability key n :: tokens) =
      optionsFrom (Function.update values c (some n)) tokens := by
  simp [optionsFrom, partition_capability hkey, hc, hnew, hn]

/-- An unknown key is skipped. -/
theorem optionsFrom_unknown
    {key : String} {n : Nat}
    (hkey : '=' ∉ key.toList) (hc : Capability.ofKey key.toList = none) :
    optionsFrom values (capability key n :: tokens) = optionsFrom values tokens := by
  simp [optionsFrom, partition_capability hkey, hc]

theorem isWord_capability
    {key : String} (hkey : key.toList.all (fun c => !isSpace c) = true) (n : Nat) :
    IsWord (capability key n) := by
  refine ⟨by simp [capability], fun c hc => ?_⟩
  rcases List.mem_append.mp hc with hc | hc
  · simpa using List.all_eq_true.mp hkey c hc
  · rcases List.mem_cons.mp hc with rfl | hc
    · decide
    · exact isSpace_of_isDigit (isDigit_of_mem_dec hc)

end Options

section Offer

variable (client : HelloConfig) (config : ServerConfig) (baud : Nat)

/-- The capabilities that a client offers. -/
def offered : Capabilities
  | .FLOW => some 1
  | .MAXBLK => some client.max_block_size
  | .WINDOW => some client.window_limit
  | .RXBUF => some client.receive_buffer
  | .LZ4 => if client.compression_enabled = true then some 1 else none
  | .IDENTITY => some 1

theorem options_offer
    (hbuffer : client.receive_buffer ≤ Const.MAX_CAPABILITY) :
    options ((Hello.offer client).drop 1) = .ok (offered client) := by
  have hblock := client.block_ok
  have hwindow := client.window_ok
  have hfits := client.buffer_ok
  have hmax : Const.MAX_BLOCK_SIZE ≤ Const.MAX_CAPABILITY := by decide
  have hwmax : Const.MAX_WINDOW ≤ Const.MAX_CAPABILITY := by decide
  have hone : 1 ≤ 1 ∧ 1 ≤ Const.MAX_CAPABILITY := by decide
  have hclosed : ∀ values : Capabilities, optionsFrom values [] = .ok values := fun _ => rfl
  simp only [options, Hello.offer, List.cons_append, List.nil_append, List.drop_succ_cons,
    List.drop_zero]
  rw [optionsFrom_capability (c := .FLOW) (by decide) (by decide) rfl hone,
    optionsFrom_capability (c := .MAXBLK) (by decide) (by decide) rfl (by omega),
    optionsFrom_capability (c := .WINDOW) (by decide) (by decide) rfl (by omega),
    optionsFrom_capability (c := .RXBUF) (by decide) (by decide) rfl (by omega)]
  cases hlz4 : client.compression_enabled with
  | true =>
      simp only [if_true, List.cons_append, List.nil_append]
      rw [optionsFrom_capability (c := .LZ4) (by decide) (by decide) rfl hone,
        optionsFrom_capability (c := .IDENTITY) (by decide) (by decide) rfl hone, hclosed]
      congr 1
      funext c
      cases c <;> simp [offered, hlz4, Function.update]
  | false =>
      simp only [Bool.false_eq_true, if_false, List.nil_append]
      rw [optionsFrom_capability (c := .IDENTITY) (by decide) (by decide) rfl hone, hclosed]
      congr 1
      funext c
      cases c <;> simp [offered, hlz4, Function.update]

/-- An announced buffer beyond the range of a capability is refused. -/
theorem options_offer_error
    (hbuffer : ¬ client.receive_buffer ≤ Const.MAX_CAPABILITY) :
    ∃ exc, options ((Hello.offer client).drop 1) = .error exc := by
  have hblock := client.block_ok
  have hwindow := client.window_ok
  have hmax : Const.MAX_BLOCK_SIZE ≤ Const.MAX_CAPABILITY := by decide
  have hwmax : Const.MAX_WINDOW ≤ Const.MAX_CAPABILITY := by decide
  have hone : 1 ≤ 1 ∧ 1 ≤ Const.MAX_CAPABILITY := by decide
  simp only [options, Hello.offer, List.cons_append, List.nil_append, List.drop_succ_cons,
    List.drop_zero]
  rw [optionsFrom_capability (c := .FLOW) (by decide) (by decide) rfl hone,
    optionsFrom_capability (c := .MAXBLK) (by decide) (by decide) rfl (by omega),
    optionsFrom_capability (c := .WINDOW) (by decide) (by decide) rfl (by omega)]
  have hkey : Capability.ofKey "RXBUF".toList = some .RXBUF := by decide
  refine ⟨ProtocolError "capability out of range", ?_⟩
  rw [optionsFrom, partition_capability (by decide), hkey]
  simp [hbuffer, Function.update]

/-- The block limit that both ends take from an offer. -/
def agreedBlock : Nat :=
  min config.block_limit client.max_block_size

/-- The window that both ends take from an offer. -/
def agreedWindow : Nat :=
  min config.window_limit (min client.window_limit
    (client.receive_buffer / (agreedBlock client config + Const.FRAME_OVERHEAD)))

/-- One frame fits in the announced buffer. -/
theorem agreed_capacity :
    1 ≤ client.receive_buffer / (agreedBlock client config + Const.FRAME_OVERHEAD) := by
  have hfits := client.buffer_ok
  have hle : agreedBlock client config ≤ client.max_block_size := Nat.min_le_right _ _
  have hpos : 0 < agreedBlock client config + Const.FRAME_OVERHEAD :=
    Nat.add_pos_right _ (by decide)
  exact (Nat.le_div_iff_mul_le hpos).mpr (by omega)

theorem agreedBlock_ok :
    1 ≤ agreedBlock client config ∧ agreedBlock client config ≤ client.max_block_size ∧
      agreedBlock client config ≤ config.block_limit :=
  ⟨Nat.le_min.mpr ⟨config.block_ok.1, client.block_ok.1⟩, Nat.min_le_right _ _,
    Nat.min_le_left _ _⟩

theorem agreedWindow_ok :
    1 ≤ agreedWindow client config ∧ agreedWindow client config ≤ client.window_limit ∧
      agreedWindow client config ≤ config.window_limit :=
  ⟨Nat.le_min.mpr ⟨config.window_ok.1,
      Nat.le_min.mpr ⟨client.window_ok.1, agreed_capacity client config⟩⟩,
    (Nat.min_le_right _ _).trans (Nat.min_le_left _ _), Nat.min_le_left _ _⟩

/-- A full window fits in the announced buffer. -/
theorem agreedWindow_fits :
    agreedWindow client config * (agreedBlock client config + Const.FRAME_OVERHEAD) ≤
      client.receive_buffer := by
  have hle : agreedWindow client config ≤
      client.receive_buffer / (agreedBlock client config + Const.FRAME_OVERHEAD) :=
    (Nat.min_le_right _ _).trans (Nat.min_le_right _ _)
  exact (Nat.mul_le_mul_right _ hle).trans (Nat.div_mul_le_self _ _)

/-- The session of two ends that agree. -/
structure Session.Agrees (session : Session) : Prop where
  server : session.config = config
  block : session.negotiated_block_limit = agreedBlock client config
  window : session.window_size = agreedWindow client config
  flow : session.flow = true
  compression : session.compression = (config.compression_enabled && client.compression_enabled)
  identity : session.identity = true

theorem negotiate_offer
    (hbuffer : client.receive_buffer ≤ Const.MAX_CAPABILITY) :
    ∃ session, negotiate config ((Hello.offer client).drop 1) = .ok (session, offered client) ∧
      session.Agrees client config := by
  have hopts := options_offer client hbuffer
  have hflow : offered client .FLOW = some 1 := rfl
  have hcapacity : 1 ≤ bufferCapacity config (offered client) := agreed_capacity client config
  unfold negotiate
  split
  · rename_i exc hexc
    rw [hopts] at hexc
    cases hexc
  · rename_i capabilities hcapabilities
    rw [hopts] at hcapabilities
    cases hcapabilities
    simp only [hflow, hcapacity, dite_true]
    refine ⟨_, rfl, rfl, rfl, rfl, rfl, ?_, rfl⟩
    cases hlz4 : client.compression_enabled <;> simp [offered, hlz4]

theorem negotiate_offer_error
    (hbuffer : ¬ client.receive_buffer ≤ Const.MAX_CAPABILITY) :
    ∃ exc, negotiate config ((Hello.offer client).drop 1) = .error exc := by
  obtain ⟨exc, hexc⟩ := options_offer_error client hbuffer
  unfold negotiate
  split
  · rename_i exc' _
    exact ⟨exc', rfl⟩
  · rename_i capabilities hcapabilities
    rw [hexc] at hcapabilities
    cases hcapabilities

/-- The capabilities of the proposal. -/
def proposed : Capabilities
  | .FLOW => some 1
  | .MAXBLK => some (agreedBlock client config)
  | .WINDOW => some (agreedWindow client config)
  | .RXBUF => none
  | .LZ4 => if config.compression_enabled && client.compression_enabled then some 1 else none
  | .IDENTITY => some 1

theorem options_tail
    {session : Session} (h : session.Agrees client config) :
    options (HandleHello.tailWords baud session) = .ok (proposed client config) := by
  have hblock := agreedBlock_ok client config
  have hwindow := agreedWindow_ok client config
  have hmax : config.block_limit ≤ Const.MAX_CAPABILITY :=
    config.block_ok.2.trans (by decide)
  have hwmax : config.window_limit ≤ Const.MAX_CAPABILITY :=
    config.window_ok.2.trans (by decide)
  have hone : 1 ≤ 1 ∧ 1 ≤ Const.MAX_CAPABILITY := by decide
  have hclosed : ∀ values : Capabilities, optionsFrom values [] = .ok values := fun _ => rfl
  simp only [options, HandleHello.tailWords, h.flow, h.identity, h.block, h.window, h.compression,
    if_true, List.cons_append, List.nil_append]
  rw [optionsFrom_unknown (by decide) (by decide),
    optionsFrom_capability (c := .MAXBLK) (by decide) (by decide) rfl (by omega),
    optionsFrom_capability (c := .FLOW) (by decide) (by decide) rfl hone,
    optionsFrom_capability (c := .WINDOW) (by decide) (by decide) rfl (by omega)]
  cases hlz4 : config.compression_enabled && client.compression_enabled with
  | true =>
      simp only [if_true, List.cons_append, List.nil_append]
      rw [optionsFrom_capability (c := .LZ4) (by decide) (by decide) rfl hone,
        optionsFrom_capability (c := .IDENTITY) (by decide) (by decide) rfl hone, hclosed]
      congr 1
      funext c
      cases c <;> simp [proposed, hlz4, Function.update]
  | false =>
      simp only [Bool.false_eq_true, if_false, List.nil_append]
      rw [optionsFrom_capability (c := .IDENTITY) (by decide) (by decide) rfl hone, hclosed]
      congr 1
      funext c
      cases c <;> simp [proposed, hlz4, Function.update]

end Offer

section Words

theorem isWord_offer
    {client : HelloConfig} :
    ∀ w ∈ Hello.offer client, IsWord w := by
  have hversion : IsWord Const.PROTOCOL_VERSION := isWord_of_check (by decide)
  intro w hw
  simp only [Hello.offer, List.cons_append, List.nil_append, List.mem_cons, List.mem_append,
    List.not_mem_nil, or_false] at hw
  rcases hw with rfl | rfl | rfl | rfl | rfl | hw | rfl
  · exact hversion
  · exact isWord_capability (by decide) _
  · exact isWord_capability (by decide) _
  · exact isWord_capability (by decide) _
  · exact isWord_capability (by decide) _
  · split at hw
    · rw [List.mem_singleton.mp hw]
      exact isWord_capability (by decide) _
    · cases hw
  · exact isWord_capability (by decide) _

theorem isWord_tail
    {baud : Nat} {session : Session} :
    ∀ w ∈ HandleHello.tailWords baud session, IsWord w := by
  intro w hw
  simp only [HandleHello.tailWords, List.mem_append, List.mem_cons, List.not_mem_nil,
    or_false] at hw
  rcases hw with ((rfl | rfl) | hw) | hw
  · exact isWord_capability (by decide) _
  · exact isWord_capability (by decide) _
  · split at hw
    · rcases List.mem_append.mp hw with hw | hw
      · simp only [List.mem_cons, List.not_mem_nil, or_false] at hw
        rcases hw with rfl | rfl <;> exact isWord_capability (by decide) _
      · split at hw
        · rw [List.mem_singleton.mp hw]
          exact isWord_capability (by decide) _
        · cases hw
    · cases hw
  · split at hw
    · rw [List.mem_singleton.mp hw]
      exact isWord_capability (by decide) _
    · cases hw

theorem split_greeting (client : HelloConfig) (attempt : Nat) :
    split (Hello.greeting client attempt) =
      (if attempt = 0 then "HELLO".toList else "HELLO?".toList) :: Hello.offer client := by
  have hfirst : IsWord (if attempt = 0 then "HELLO".toList else "HELLO?".toList) := by
    split <;> exact isWord_of_check (by decide)
  exact split_join (List.forall_mem_cons.mpr ⟨hfirst, isWord_offer⟩)

variable (baud : Nat) (session : Session)

theorem split_normalLine :
    split (HandleHello.normalLine (HandleHello.tailWords baud session)) =
      "HELLO".toList :: Const.PROTOCOL_VERSION :: "HRU?".toList ::
        HandleHello.tailWords baud session := by
  have hhello : IsWord "HELLO".toList := isWord_of_check (by decide)
  have hversion : IsWord Const.PROTOCOL_VERSION := isWord_of_check (by decide)
  have hhru : IsWord "HRU?".toList := isWord_of_check (by decide)
  exact split_join (List.forall_mem_cons.mpr ⟨hhello, List.forall_mem_cons.mpr ⟨hversion,
    List.forall_mem_cons.mpr ⟨hhru, isWord_tail⟩⟩⟩)

theorem split_ohruLine :
    split (HandleHello.ohruLine (HandleHello.tailWords baud session)) =
      "OHRU".toList :: Const.PROTOCOL_VERSION :: HandleHello.tailWords baud session := by
  have hohru : IsWord "OHRU".toList := isWord_of_check (by decide)
  have hversion : IsWord Const.PROTOCOL_VERSION := isWord_of_check (by decide)
  exact split_join (List.forall_mem_cons.mpr ⟨hohru, List.forall_mem_cons.mpr ⟨hversion,
    isWord_tail⟩⟩)

@[simp] theorem split_hruLine : split hruLine = [hruLine] := by
  decide

@[simp] theorem split_whoLine : split whoLine = ["WHO?".toList, "0".toList] := by
  decide

@[simp] theorem split_iamLine :
    split iamLine = ["IAM".toList, "0".toList, "TYPE=PYTHON".toList, "ROLE=CLIENT".toList,
      "VER=2.1".toList] := by
  decide

/-- A line whose first word is not `RMB` is no state report. -/
theorem isRmb_eq_false
    {text : Line} (h : word (split text) 0 ≠ "RMB".toList) :
    Sender.isRmb text = false := by
  have hfirst : (word (split text) 0 == "RMB".toList) = false := beq_false_of_ne h
  simp only [Sender.isRmb, hfirst, Bool.and_false, Bool.false_and]

/-- No line of the client is a state report. -/
theorem isRmb_greeting
    {client : HelloConfig} (k : Nat) :
    Sender.isRmb (Hello.greeting client k) = false := by
  refine isRmb_eq_false ?_
  rw [split_greeting]
  split <;> simp

theorem isRmb_hruLine :
    Sender.isRmb hruLine = false := by
  decide

theorem isRmb_iamLine :
    Sender.isRmb iamLine = false := by
  decide

end Words

section Machines

variable (client : HelloConfig) (config : ServerConfig) (baud : Nat) (session : Session)

/-- A client that has no answer yet. -/
def Hello.asking (attempt : Nat) : Hello :=
  { (Hello.start client).1 with phase := .answer attempt }

/-- A client that has accepted the proposal. -/
def Hello.settled (phase : HelloPhase) : Hello where
  phase
  flow := true
  compression := config.compression_enabled && client.compression_enabled
  identity := true
  window_size := agreedWindow client config
  maxblk := agreedBlock client config

/-- A server that has written its proposal. -/
def HandleHello.settled (phase : GreetPhase) : HandleHello where
  phase
  session := some session
  proposal_tail := HandleHello.tailWords baud session
  pending := none

/-- The two lines that carry the proposal. -/
def IsProposal (text : Line) : Prop :=
  text = HandleHello.normalLine (HandleHello.tailWords baud session) ∨
    text = HandleHello.ohruLine (HandleHello.tailWords baud session)

variable {client config baud session}

theorem IsProposal.isNormal_or
    {text : Line} (h : IsProposal baud session text) :
    Hello.isNormal (split text) = true ∨ Hello.isRepeated (split text) = true := by
  rcases h with rfl | rfl
  · left
    rw [split_normalLine]
    rfl
  · right
    rw [split_ohruLine]
    rfl

/-- The client takes from either proposal what the server settled. -/
theorem Hello.step_answer
    (hagrees : session.Agrees client config)
    {attempt : Nat} {text : Line} (h : IsProposal baud session text) :
    Hello.step client (Hello.asking client attempt) (.line text) =
      some (Hello.settled client config (.who 0), [hruLine]) := by
  have hopts := options_tail client config baud hagrees
  have hblock := agreedBlock_ok client config
  have hwindow := agreedWindow_ok client config
  have hfits := agreedWindow_fits client config
  have haccept : Hello.accept client (Hello.asking client attempt) (proposed client config) =
      (Hello.settled client config (.who 0), [hruLine]) := by
    have hnone : ¬ ((config.compression_enabled && client.compression_enabled) = true ∧
        client.compression_enabled = false) := by
      rintro ⟨hlz4, hoff⟩
      simp [hoff] at hlz4
    have hrange : ¬ (agreedBlock client config > client.max_block_size ∨
        agreedWindow client config > client.window_limit ∨
        agreedWindow client config * (agreedBlock client config + Const.FRAME_OVERHEAD) >
          client.receive_buffer) := by
      omega
    have hcompression : (true && decide (proposed client config .LZ4 = some 1)) =
        (config.compression_enabled && client.compression_enabled) := by
      cases hlz4 : config.compression_enabled && client.compression_enabled <;>
        simp [proposed, hlz4]
    unfold Hello.accept
    simp only [show decide (proposed client config .FLOW = some 1) = true from rfl,
      show (proposed client config .MAXBLK).getD Const.DEFAULT_BLOCK_SIZE =
        agreedBlock client config from rfl,
      show (proposed client config .WINDOW).getD 1 = agreedWindow client config from rfl,
      show decide (proposed client config .IDENTITY = some 1) = true from rfl, if_true,
      hcompression, if_neg hnone, if_neg hrange]
    rfl
  simp only [Hello.step, Hello.asking]
  rw [← Hello.asking, Hello.onAnswer]
  rcases h with rfl | rfl
  · rw [split_normalLine, if_neg (by simp), if_neg (by simp [Hello.isNormal])]
    simp only [Hello.isNormal, List.take_succ_cons, List.take_zero, BEq.rfl, if_true,
      List.drop_succ_cons, List.drop_zero, hopts, haccept]
  · have hnormal : Hello.isNormal ("OHRU".toList :: Const.PROTOCOL_VERSION ::
        HandleHello.tailWords baud session) = false := by
      simp [Hello.isNormal]
    rw [split_ohruLine, if_neg (by simp), if_neg (by simp [Hello.isRepeated]), hnormal]
    simp only [Bool.false_eq_true, if_false, List.drop_succ_cons, List.drop_zero, hopts, haccept]

/-- A repeated proposal is answered by another HRU. -/
theorem Hello.step_again
    {attempt : Nat} {text : Line} (h : IsProposal baud session text) :
    Hello.step client (Hello.settled client config (.who attempt)) (.line text) =
      some (Hello.settled client config
        (if attempt + 1 < Const.HELLO_RETRIES then .who (attempt + 1)
          else .returned (agreedBlock client config)), [hruLine]) := by
  have hne : split text ≠ ["WHO?".toList, "0".toList] := by
    rcases h with rfl | rfl
    · rw [split_normalLine]
      simp
    · rw [split_ohruLine]
      simp
  simp only [Hello.step, Hello.settled, Hello.onWho, if_neg hne, if_pos h.isNormal_or]

theorem Hello.step_who
    {attempt : Nat} :
    Hello.step client (Hello.settled client config (.who attempt)) (.line whoLine) =
      some (Hello.settled client config (.returned (agreedBlock client config)), [iamLine]) := by
  simp [Hello.step, Hello.settled, Hello.onWho]

/-- The first line of a client opens a session. -/
theorem HandleHello.step_first
    (hnegotiate : negotiate config ((Hello.offer client).drop 1) = .ok (session, offered client))
    (attempt : Nat) :
    HandleHello.step config baud HandleHello.start (.line (Hello.greeting client attempt)) =
      some (HandleHello.settled baud session (.hru 0),
        [if attempt = 0 then HandleHello.normalLine (HandleHello.tailWords baud session)
          else HandleHello.ohruLine (HandleHello.tailWords baud session)]) := by
  have hversion : word (Hello.offer client) 0 = Const.PROTOCOL_VERSION := rfl
  simp only [HandleHello.step, HandleHello.start, isRmb_greeting, Bool.false_eq_true, if_false,
    HandleHello.onFirst, split_greeting, word_zero, word_succ, hversion, List.drop_succ_cons,
    hnegotiate]
  by_cases hattempt : attempt = 0 <;>
    simp [hattempt, Hello.offer, HandleHello.settled]

/-- An offer that the server cannot read ends the session. -/
theorem HandleHello.step_first_error
    {exc : PcutpError}
    (hnegotiate : negotiate config ((Hello.offer client).drop 1) = .error exc)
    (attempt : Nat) :
    HandleHello.step config baud HandleHello.start (.line (Hello.greeting client attempt)) =
      some (HandleHello.start.raise exc) := by
  have hversion : word (Hello.offer client) 0 = Const.PROTOCOL_VERSION := rfl
  simp only [HandleHello.step, HandleHello.start, isRmb_greeting, Bool.false_eq_true, if_false,
    HandleHello.onFirst, split_greeting, word_zero, word_succ, hversion, List.drop_succ_cons,
    hnegotiate]
  by_cases hattempt : attempt = 0 <;> simp [hattempt, Hello.offer]

/-- A `HELLO?` repeats the proposal. -/
theorem HandleHello.step_again
    {attempt : Nat} (k : Nat) :
    HandleHello.step config baud (HandleHello.settled baud session (.hru attempt))
        (.line (Hello.greeting client (k + 1))) =
      some ((HandleHello.settled baud session (.hru attempt)).nextHru attempt) := by
  have hagain : HandleHello.isAgain (Hello.greeting client (k + 1)) = true :=
    Bool.or_eq_true_iff.mpr (Or.inr (List.isPrefixOf_iff_prefix.mpr
      (Words.unwords_begins ' ' ["HELLO?".toList, Const.PROTOCOL_VERSION]
        ((Hello.offer client).drop 1))))
  simp only [HandleHello.step, HandleHello.settled, isRmb_greeting, Bool.false_eq_true, if_false,
    HandleHello.onHru, hagain, if_true]

theorem HandleHello.step_hru
    (hidentity : session.identity = true) {attempt : Nat} :
    HandleHello.step config baud (HandleHello.settled baud session (.hru attempt))
        (.line hruLine) =
      some (HandleHello.settled baud session (.who 0), [whoLine]) := by
  have hagain : HandleHello.isAgain hruLine = false := by
    decide
  simp [HandleHello.step, HandleHello.settled, isRmb_hruLine, HandleHello.onHru, hagain,
    HandleHello.connected, HandleHello.identity, hidentity]

theorem HandleHello.step_hru_again
    {attempt : Nat} :
    HandleHello.step config baud (HandleHello.settled baud session (.who attempt))
        (.line hruLine) =
      some (if attempt + 1 < Const.HELLO_RETRIES then
        (HandleHello.settled baud session (.who (attempt + 1)), [whoLine])
      else (HandleHello.settled baud session (.who attempt)).raise
        (TimeoutError_ "identity handshake was not acknowledged")) := by
  simp only [HandleHello.step, HandleHello.settled, isRmb_hruLine, Bool.false_eq_true, if_false,
    HandleHello.onIam, split_hruLine, if_true]

theorem HandleHello.step_iam
    {attempt : Nat} :
    HandleHello.step config baud (HandleHello.settled baud session (.who attempt))
        (.line iamLine) =
      some (HandleHello.settled baud session (.returned true), []) := by
  have hne : ¬ (["IAM".toList, "0".toList, "TYPE=PYTHON".toList, "ROLE=CLIENT".toList,
      "VER=2.1".toList] = [hruLine]) := by
    decide
  have htype : "TYPE=".toList.isPrefixOf "TYPE=PYTHON".toList = true := by
    decide
  simp only [HandleHello.step, HandleHello.settled, isRmb_iamLine, Bool.false_eq_true, if_false,
    HandleHello.onIam, split_iamLine, if_neg hne, word_succ, word_zero, htype]
  simp

end Machines

end Pcutp
