import Nuah.UpgradeableLoader
import Nuah.Proofs.SystemCalls

/-!
# What the upgradeable loader does to an account

Each instruction finds out by the state of an account what it may do to it. For every account
of the transaction, wherever and however often it is passed, this says what a successful
instruction has made of it.
-/

namespace Nuah.Proofs

open ExceptLoops ByteStrings UpgradeableLoaderState UpgradeableLoader Keeps BorrowedAccount List Option

variable {offset position c r index lamports required : Nat} {bytes contents : Bytes}
  {recipient close : BorrowedAccount Bytes}

variable {authority : Option Pubkey} {data : Bytes} {state : UpgradeableLoaderState} {slot : Slot}
  {length x i : Nat} {a : Account Bytes} {key programdataKey authorityKey : Pubkey}

variable {b b' : BorrowedAccount Bytes}

/-! ## The state in the data -/

lemma length_serializeAuthority_le (authority : Option Pubkey) :
    (serializeAuthority authority).length ≤ 33 := by
  cases authority with
  | none => decide
  | some key => simp [serializeAuthority, serializePubkey]

lemma length_serialize_programData_le (slot : Slot) (authority : Option Pubkey) :
    (serialize (.programData slot authority)).length ≤ sizeOfProgramdataMetadata := by
  have := length_serializeAuthority_le authority
  simp only [serialize, length_append, length_leBytes, sizeOfProgramdataMetadata]
  omega

lemma deserializeAuthority_append (authority : Option Pubkey) (rest : Bytes) :
    deserializeAuthority (serializeAuthority authority ++ rest) =
      some (authority.map (· % 256 ^ 32)) := by
  cases authority with
  | none => rfl
  | some key =>
    have hone : ([1] : Bytes).length = 1 := rfl
    have htag : readBytes 1 (1 :: (serializePubkey key ++ rest)) =
        some ([1], serializePubkey key ++ rest) := readBytes_append hone _
    have hkey : deserializePubkey (serializePubkey key ++ rest) = some (key % 256 ^ 32) := by
      have hlength : (serializePubkey key).length = 32 := by simp [serializePubkey]
      rw [deserializePubkey, readBytes_append hlength]
      simp [serializePubkey]
    have htag_eq : ofLeBytes [1] = 1 := rfl
    simp [serializeAuthority, deserializeAuthority, htag, htag_eq, hkey]

lemma deserialize_programData_append (slot : Slot) (authority : Option Pubkey) (rest : Bytes) :
    deserialize (serialize (.programData slot authority) ++ rest) =
      some (.programData (slot % 256 ^ 8) (authority.map (· % 256 ^ 32))) := by
  have htag_eq : ofLeBytes (leBytes 4 3) = 3 := rfl
  simp [serialize, deserialize, readBytes_append (length_leBytes 4 3),
    readBytes_append (length_leBytes 8 slot), htag_eq, deserializeAuthority_append,
    ofLeBytes_leBytes]

lemma deserializeAuthority_eq_some {input : Bytes}
    (h : deserializeAuthority input = some authority) :
    authority.map (· % 256 ^ 32) = authority ∧ (authority ≠ none → 33 ≤ input.length) := by
  obtain ⟨⟨tag, input'⟩, hread, h⟩ := bind_eq_some_iff.1 h
  obtain ⟨htag, hinput⟩ := readBytes_eq_some hread
  dsimp only at h
  split at h
  · cases h
    exact ⟨rfl, fun hne => absurd rfl hne⟩
  · obtain ⟨key, hkey, h⟩ := bind_eq_some_iff.1 h
    cases h
    obtain ⟨⟨bytes, rest⟩, hbytes, hkey⟩ := bind_eq_some_iff.1 hkey
    obtain ⟨hlength, hinput'⟩ := readBytes_eq_some hbytes
    have hlt := ofLeBytes_lt bytes.reverse
    rw [length_reverse, hlength, Option.some.inj hkey] at hlt
    refine ⟨?_, fun _ => ?_⟩
    · rw [map_some, Nat.mod_eq_of_lt hlt]
    · rw [hinput, hinput', length_append, length_append, htag, hlength]
      omega
  · cases h

lemma deserialize_ne_nil (h : deserialize data = some state) : data ≠ [] := by
  rintro rfl
  cases h

lemma deserialize_eq_programData (h : deserialize data = some (.programData slot authority)) :
    slot % 256 ^ 8 = slot ∧ authority.map (· % 256 ^ 32) = authority ∧
      (authority ≠ none → sizeOfProgramdataMetadata ≤ data.length) := by
  obtain ⟨⟨tag, input⟩, hread, h⟩ := bind_eq_some_iff.1 h
  obtain ⟨htag, hinput⟩ := readBytes_eq_some hread
  dsimp only at h
  split at h
  · cases h
  · obtain ⟨_, -, h⟩ := bind_eq_some_iff.1 h
    cases h
  · obtain ⟨_, -, h⟩ := bind_eq_some_iff.1 h
    cases h
  · obtain ⟨⟨bytes, input'⟩, hslot, h⟩ := bind_eq_some_iff.1 h
    obtain ⟨authority', hauthority, h⟩ := bind_eq_some_iff.1 h
    obtain ⟨rfl, rfl⟩ := UpgradeableLoaderState.programData.inj (Option.some.inj h)
    obtain ⟨hlength, hinput'⟩ := readBytes_eq_some hslot
    obtain ⟨hkey, hthere⟩ := deserializeAuthority_eq_some hauthority
    have hlt := ofLeBytes_lt bytes
    rw [hlength] at hlt
    refine ⟨Nat.mod_eq_of_lt hlt, hkey, fun hne => ?_⟩
    have hthere := hthere hne
    dsimp only at hthere
    rw [hinput, hinput', length_append, length_append, htag, hlength, sizeOfProgramdataMetadata]
    omega
  · cases h

lemma deserialize_of_take
    (h : data.take (serialize (.programData slot authority)).length = serialize (.programData slot authority)) :
    deserialize data = some (.programData (slot % 256 ^ 8) (authority.map (· % 256 ^ 32))) := by
  rw [← take_append_drop (serialize (.programData slot authority)).length data, h]
  exact deserialize_programData_append slot authority _

/-! ## Operations on a borrowed account -/

lemma loaderGetState_eq_ok :
    b.getState = .ok state ↔ deserialize b.account.data = some state :=
  okOr_eq_ok

lemma loaderSetState_eq_ok (h : b.setState state = .ok b') :
    state.serialize.length ≤ b.account.data.length ∧
      b' = b.withData (overwrite b.account.data 0 state.serialize) := by
  have h := rest_eq_ok h
  obtain ⟨_, hle, h⟩ := bind_eq_ok.1 h
  exact ⟨ensure_eq_ok.1 hle, (Except.ok.inj h).symm⟩

lemma copyFromSlice_eq_ok (h : b.copyFromSlice offset length bytes = .ok b') :
    bytes.length = length ∧ offset + length ≤ b.account.data.length ∧
      b' = b.withData (overwrite b.account.data offset bytes) := by
  have h := rest_eq_ok h
  obtain ⟨_, hle, h⟩ := bind_eq_ok.1 h
  obtain ⟨_, hlength, h⟩ := bind_eq_ok.1 h
  exact ⟨of_decide_eq_true (assertOrPanic_eq_ok.1 hlength), ensure_eq_ok.1 hle,
    (Except.ok.inj h).symm⟩

lemma setDataLength_eq_ok {delta delta' : Int}
    (h : b.setDataLength delta length = .ok (b', delta')) :
    b' = b.withData (resize b.account.data length) := by
  have h := rest_eq_ok h
  have h := rest_eq_ok h
  by_cases hlength : b.account.data.length = length
  · rw [if_pos hlength] at h
    rw [← (Prod.mk.inj (Except.ok.inj h)).1, resize_of_le hlength.le, hlength, Nat.sub_self,
      replicate_zero, append_nil]
    rfl
  · rw [if_neg hlength] at h
    exact (Prod.mk.inj (Except.ok.inj h)).1.symm

lemma bufferContents_eq_ok (h : b.bufferContents = .ok contents) :
    contents = b.account.data.drop sizeOfBufferMetadata := by
  have h := rest_eq_ok h
  exact (Except.ok.inj h).symm

/-! ## What may happen to an account -/

/-- The program that an account of program data holds. -/
def programBytes (a : Account Bytes) : Bytes := a.data.drop sizeOfProgramdataMetadata

def SignedBy (ctx : InstructionContext) (tc : TransactionContext) (key : Pubkey) : Prop :=
  ∃ instructionAccount ∈ ctx.instructionAccounts, instructionAccount.isSigner = true ∧
    tc.accountKeys[instructionAccount.indexInTransaction]? = some key

/-- The bytes are what some buffer of the transaction holds, and were verified. -/
def VerifiedContents (cfg : LoaderConfig) (tc : TransactionContext) (contents : Bytes) : Prop :=
  cfg.verify contents = .ok () ∧
    ∃ buffer ∈ tc.accounts, (∃ authority, deserialize buffer.data = some (.buffer authority)) ∧
      contents = buffer.data.drop sizeOfBufferMetadata

section

variable (cfg : LoaderConfig) (clockSlot : Slot) (ctx : InstructionContext) (tc : TransactionContext)

inductive ProgramDataChange (slot : Slot) (authority : Option Pubkey) (a a' : Account Bytes) :
    UpgradeableLoaderInstruction → Prop
  | upgraded (key : Pubkey) (contents : Bytes) (hauthority : authority = some key)
      (hsigned : SignedBy ctx tc key) (hverified : VerifiedContents cfg tc contents)
      (hfits : contents.length ≤ (programBytes a).length)
      (hbytes : programBytes a' =
        contents ++ List.replicate ((programBytes a).length - contents.length) 0)
      (hstate : deserialize a'.data = some (.programData (clockSlot % 256 ^ 8) authority)) :
      ProgramDataChange slot authority a a' .upgrade
  | extended (additionalBytes : Nat) (hauthority : authority ≠ none)
      (hbytes : programBytes a' = programBytes a ++ List.replicate additionalBytes 0)
      (hstate : deserialize a'.data = some (.programData (clockSlot % 256 ^ 8) authority)) :
      ProgramDataChange slot authority a a' (.extendProgram additionalBytes)
  | authoritySet (key : Pubkey) (newAuthority : Option Pubkey)
      (instruction : UpgradeableLoaderInstruction)
      (hinstruction : instruction = .setAuthority ∨ instruction = .setAuthorityChecked)
      (hauthority : authority = some key) (hsigned : SignedBy ctx tc key)
      (hbytes : programBytes a' = programBytes a)
      (hstate : deserialize a'.data = some (.programData slot newAuthority)) :
      ProgramDataChange slot authority a a' instruction
  | closed (key : Pubkey) (hauthority : authority = some key) (hsigned : SignedBy ctx tc key)
      (hdata : a'.data = serialize .uninitialized) : ProgramDataChange slot authority a a' .close

inductive AccountChange (a a' : Account Bytes) (instruction : UpgradeableLoaderInstruction) : Prop
  | kept (h : Kept a a')
  | withoutData (h : a.data = [])
  | initialized (h : deserialize a.data = some .uninitialized)
      (hlength : sizeOfProgram ≤ a.data.length)
  | uninitializedClosed (h : deserialize a.data = some .uninitialized)
      (hdata : a'.data = resize a.data sizeOfUninitialized)
  | buffer (authority : Option Pubkey) (h : deserialize a.data = some (.buffer authority))
  | programData (slot : Slot) (authority : Option Pubkey)
      (h : deserialize a.data = some (.programData slot authority))
      (hchange : ProgramDataChange cfg clockSlot ctx tc slot authority a a' instruction)

def Changes (tc' : TransactionContext) (instruction : UpgradeableLoaderInstruction) : Prop :=
  ∀ (x : Nat) (a a' : Account Bytes), tc.accounts[x]? = some a → tc'.accounts[x]? = some a' →
    AccountChange cfg clockSlot ctx tc a a' instruction

end

variable {cfg : LoaderConfig} {clockSlot : Slot} {ctx : InstructionContext}
  {tc tc' : TransactionContext} {instruction : UpgradeableLoaderInstruction}

lemma Keeps.change {a' : Account Bytes} (h : Keeps x tc tc') (ha : tc.accounts[x]? = some a)
    (ha' : tc'.accounts[x]? = some a') :
    AccountChange cfg clockSlot ctx tc a a' instruction := by
  obtain ⟨b, hb, hkept⟩ := h.kept a ha
  rw [mem_unique ha' hb]
  exact .kept hkept

lemma getElem?_store_self (ha : tc.accounts[i]? = some a) (b : BorrowedAccount Bytes) :
    (tc.store i b).accounts[i]? = some b.account :=
  List.getElem?_set_self (List.getElem?_eq_some_iff.1 ha).1

lemma changes_of_keeps {b b' : Account Bytes} (hb : tc.accounts[i]? = some b)
    (hb' : tc'.accounts[i]? = some b')
    (hchange : AccountChange cfg clockSlot ctx tc b b' instruction)
    (hkeeps : ∀ x, i ≠ x → Keeps x tc tc') : Changes cfg clockSlot ctx tc tc' instruction := by
  intro x a a' ha ha'
  by_cases hne : i = x
  · subst hne
    obtain rfl := mem_unique hb ha
    obtain rfl := mem_unique hb' ha'
    exact hchange
  · exact (hkeeps x hne).change ha ha'

lemma changes_store (hb : tc.accounts[i]? = some b.account)
    (hchange : AccountChange cfg clockSlot ctx tc b.account b'.account instruction) :
    Changes cfg clockSlot ctx tc (tc.store i b') instruction :=
  changes_of_keeps hb (getElem?_store_self hb b') hchange fun _ hne => store_of_ne hne b'

lemma signedBy_of_position (hkey : ctx.getKeyOfInstructionAccount tc position = .ok key)
    (hsigner : ctx.isInstructionAccountSigner position = .ok true) : SignedBy ctx tc key := by
  obtain ⟨i, hi, hkey⟩ := getKeyOfInstructionAccount_eq_ok hkey
  obtain ⟨instructionAccount, hmem, hsigner, hindex⟩ := isInstructionAccountSigner_eq_ok hsigner
  refine ⟨instructionAccount, hmem, hsigner, ?_⟩
  rw [← Except.ok.inj (hi.symm.trans hindex)]
  exact hkey

lemma checkAuthority_eq_ok (h : checkAuthority ctx tc authority position = .ok ()) :
    ∃ key, authority = some key ∧ SignedBy ctx tc key := by
  have h := rest_eq_ok h
  obtain ⟨key, hkey, h⟩ := bind_eq_ok.1 h
  obtain ⟨_, hauthority, h⟩ := bind_eq_ok.1 h
  obtain ⟨isSigner, hsigner, h⟩ := bind_eq_ok.1 h
  rw [ensure_eq_ok.1 h] at hsigner
  exact ⟨key, ensure_eq_ok.1 hauthority, signedBy_of_position hkey hsigner⟩

/-! ## Buffers and authorities -/

lemma initializeBuffer_changes (h : initializeBuffer ctx tc = .ok tc') :
    Changes cfg clockSlot ctx tc tc' instruction := by
  have h := rest_eq_ok h
  obtain ⟨⟨buffer, i⟩, hborrow, h⟩ := bind_eq_ok.1 h
  obtain ⟨state, hstate, h⟩ := bind_eq_ok.1 h
  obtain ⟨_, hfresh, h⟩ := bind_eq_ok.1 h
  obtain ⟨key, -, h⟩ := bind_eq_ok.1 h
  obtain ⟨buffer', hset, h⟩ := bind_eq_ok.1 h
  cases h
  rw [ensure_eq_ok.1 hfresh] at hstate
  refine changes_store (borrow_eq_ok hborrow).account
    (.initialized (loaderGetState_eq_ok.1 hstate) ?_)
  have hlength := (loaderSetState_eq_ok hset).1
  simp only [serialize, serializeAuthority, serializePubkey, length_append, length_leBytes,
    length_cons, length_reverse] at hlength
  rw [sizeOfProgram]
  omega

lemma write_changes (h : write ctx tc offset bytes = .ok tc') :
    Changes cfg clockSlot ctx tc tc' instruction := by
  have h := rest_eq_ok h
  obtain ⟨⟨buffer, i⟩, hborrow, h⟩ := bind_eq_ok.1 h
  obtain ⟨state, hstate, h⟩ := bind_eq_ok.1 h
  obtain ⟨_, hcheck, h⟩ := bind_eq_ok.1 h
  obtain ⟨⟨buffer', i'⟩, hborrow', h⟩ := bind_eq_ok.1 h
  obtain ⟨written, -, h⟩ := bind_eq_ok.1 h
  cases h
  have hborrows := borrow_eq_ok hborrow
  have hborrows' := borrow_eq_ok hborrow'
  obtain rfl := hborrows.index_unique hborrows'
  cases state with
  | buffer authority =>
    refine changes_store hborrows'.account (.buffer authority ?_)
    rw [← mem_unique hborrows.account hborrows'.account]
    exact loaderGetState_eq_ok.1 hstate
  | uninitialized => cases hcheck
  | program address => cases hcheck
  | programData slot authority => cases hcheck

lemma programDataChange_of_setState {newAuthority : Option Pubkey}
    (hstate : b.getState = .ok (.programData slot authority))
    (hset : b.setState (.programData slot newAuthority) = .ok b')
    (hauthority : authority = some key) (hsigned : SignedBy ctx tc key)
    (hinstruction : instruction = .setAuthority ∨ instruction = .setAuthorityChecked) :
    AccountChange cfg clockSlot ctx tc b.account b'.account instruction := by
  have hstate := loaderGetState_eq_ok.1 hstate
  obtain ⟨hlength, rfl⟩ := loaderSetState_eq_ok hset
  have hfits : 0 + (serialize (.programData slot newAuthority)).length ≤ b.account.data.length := by
    rwa [Nat.zero_add]
  refine .programData slot authority hstate (.authoritySet key
    (newAuthority.map (· % 256 ^ 32)) instruction hinstruction hauthority hsigned ?_ ?_)
  · refine drop_overwrite hfits ?_
    rw [Nat.zero_add]
    exact length_serialize_programData_le slot newAuthority
  · change deserialize (overwrite b.account.data 0 (serialize (.programData slot newAuthority))) = _
    rw [overwrite_zero, deserialize_programData_append, (deserialize_eq_programData hstate).1]

lemma setAuthority_changes (h : setAuthority ctx tc = .ok tc') :
    Changes cfg clockSlot ctx tc tc' .setAuthority := by
  have h := rest_eq_ok h
  obtain ⟨⟨account, i⟩, hborrow, h⟩ := bind_eq_ok.1 h
  have h := rest_eq_ok h
  obtain ⟨state, hstate, h⟩ := bind_eq_ok.1 h
  have hborrows := borrow_eq_ok hborrow
  cases state with
  | buffer authority =>
    have h := rest_eq_ok h
    have h := rest_eq_ok h
    obtain ⟨account', -, h⟩ := bind_eq_ok.1 h
    cases h
    exact changes_store hborrows.account (.buffer authority (loaderGetState_eq_ok.1 hstate))
  | programData slot authority =>
    obtain ⟨_, hcheck, h⟩ := bind_eq_ok.1 h
    obtain ⟨account', hset, h⟩ := bind_eq_ok.1 h
    cases h
    obtain ⟨key, hauthority, hsigned⟩ := checkAuthority_eq_ok hcheck
    exact changes_store hborrows.account
      (programDataChange_of_setState hstate hset hauthority hsigned (.inl rfl))
  | uninitialized => cases h
  | program address => cases h

lemma setAuthorityChecked_changes (h : setAuthorityChecked cfg ctx tc = .ok tc') :
    Changes cfg clockSlot ctx tc tc' .setAuthorityChecked := by
  have h := rest_eq_ok h
  have h := rest_eq_ok h
  obtain ⟨⟨account, i⟩, hborrow, h⟩ := bind_eq_ok.1 h
  have h := rest_eq_ok h
  obtain ⟨newKey, -, h⟩ := bind_eq_ok.1 h
  obtain ⟨state, hstate, h⟩ := bind_eq_ok.1 h
  have hborrows := borrow_eq_ok hborrow
  cases state with
  | buffer authority =>
    have h := rest_eq_ok h
    obtain ⟨_, -, h⟩ := bind_eq_ok.1 h
    have h := rest_eq_ok h
    obtain ⟨account', -, h⟩ := bind_eq_ok.1 h
    cases h
    exact changes_store hborrows.account (.buffer authority (loaderGetState_eq_ok.1 hstate))
  | programData slot authority =>
    obtain ⟨_, hcheck, h⟩ := bind_eq_ok.1 h
    obtain ⟨_, -, h⟩ := bind_eq_ok.1 h
    have h := rest_eq_ok h
    obtain ⟨account', hset, h⟩ := bind_eq_ok.1 h
    cases h
    obtain ⟨key, hauthority, hsigned⟩ := checkAuthority_eq_ok hcheck
    exact changes_store hborrows.account
      (programDataChange_of_setState hstate hset hauthority hsigned (.inr rfl))
  | uninitialized => cases h
  | program address => cases h

/-! ## Close -/

lemma keeps_store_store {recipient' : BorrowedAccount Bytes}
    (hrecipient : tc.accounts[r]? = some recipient.account)
    (hkept : Kept recipient.account recipient'.account) (hne : c ≠ x) :
    Keeps x tc ((tc.store r recipient').store c close) :=
  (store_of_kept hrecipient hkept).trans (store_of_ne hne close)

lemma getElem?_store_store {b : Account Bytes} (hb : tc.accounts[c]? = some b) (hne : r ≠ c) :
    ((tc.store r recipient).store c close).accounts[c]? = some close.account := by
  refine getElem?_store_self (a := b) ?_ close
  rw [TransactionContext.store, getElem?_set_ne hne]
  exact hb

lemma commonCloseAccount_eq_ok (h : commonCloseAccount ctx tc authority = .ok tc') :
    ∃ (key : Pubkey) (c : Nat) (b b' : Account Bytes), authority = some key ∧ SignedBy ctx tc key ∧
      ctx.getIndexOfInstructionAccountInTransaction 0 = .ok c ∧ tc.accounts[c]? = some b ∧
      tc'.accounts[c]? = some b' ∧ b'.data = overwrite b.data 0 (serialize .uninitialized) ∧
      ∀ x, c ≠ x → Keeps x tc tc' := by
  obtain ⟨_, hcheck, h⟩ := bind_eq_ok.1 h
  obtain ⟨⟨close, c⟩, hclose, h⟩ := bind_eq_ok.1 h
  obtain ⟨⟨recipient, r⟩, hrecipient, h⟩ := bind_eq_ok.1 h
  obtain ⟨recipient', hadd, h⟩ := bind_eq_ok.1 h
  obtain ⟨close₁, hlamports, h⟩ := bind_eq_ok.1 h
  obtain ⟨close₂, hset, h⟩ := bind_eq_ok.1 h
  cases h
  obtain ⟨key, hauthority, hsigned⟩ := checkAuthority_eq_ok hcheck
  have hcloses := borrow_eq_ok hclose
  have hrecipients := borrow_eq_ok hrecipient
  have hne : r ≠ c := fun heq => hrecipients.notOut (heq ▸ mem_singleton_self _)
  refine ⟨key, c, close.account, close₂.account, hauthority, hsigned, hcloses.index,
    hcloses.account, getElem?_store_store hcloses.account hne, ?_, fun x hx => ?_⟩
  · obtain ⟨rfl, -⟩ := setLamports_eq_ok hlamports
    obtain ⟨-, rfl⟩ := loaderSetState_eq_ok hset
    rfl
  · exact keeps_store_store hrecipients.account (kept_checkedAddLamports hadd) hx

lemma overwrite_resize_uninitialized (data : Bytes) :
    overwrite (resize data sizeOfUninitialized) 0 (serialize .uninitialized) =
      serialize .uninitialized := by
  have hlength : (resize data sizeOfUninitialized).length ≤
      (serialize .uninitialized).length := by
    rw [length_resize]
    exact le_rfl
  rw [overwrite_zero, drop_eq_nil_of_le hlength, append_nil]

lemma close_changes (h : UpgradeableLoader.close clockSlot ctx tc = .ok tc') :
    Changes cfg clockSlot ctx tc tc' .close := by
  have h := rest_eq_ok h
  obtain ⟨_, -, h⟩ := bind_eq_ok.1 h
  obtain ⟨_, -, h⟩ := bind_eq_ok.1 h
  have h := rest_eq_ok h
  obtain ⟨⟨close, c⟩, hclose, h⟩ := bind_eq_ok.1 h
  obtain ⟨closeKey, -, h⟩ := bind_eq_ok.1 h
  obtain ⟨state, hstate, h⟩ := bind_eq_ok.1 h
  obtain ⟨⟨resized, delta⟩, hresized, h⟩ := bind_eq_ok.1 h
  have hcloses := borrow_eq_ok hclose
  have hstate := loaderGetState_eq_ok.1 hstate
  -- the account that is closed is cut off first
  have hcut : resized.account.data = resize close.account.data sizeOfUninitialized := by
    rw [setDataLength_eq_ok hresized]
    rfl
  have hstored : (tc.storeResized c (resized, delta)).accounts[c]? = some resized.account :=
    getElem?_store_self hcloses.account _
  have hothers : ∀ x, c ≠ x → Keeps x tc (tc.storeResized c (resized, delta)) :=
    fun x hx => storeResized_of_ne hx _
  have hcommon : ∀ {authority : Option Pubkey},
      commonCloseAccount ctx (tc.storeResized c (resized, delta)) authority = .ok tc' →
      ∃ (key : Pubkey) (b' : Account Bytes), authority = some key ∧ SignedBy ctx tc key ∧
        tc'.accounts[c]? = some b' ∧ b'.data = serialize .uninitialized ∧
        ∀ x, c ≠ x → Keeps x tc tc' := by
    intro authority hclosed
    obtain ⟨key, c', b, b', hauthority, hsigned, hindex, hb, hb', hdata, hkeeps⟩ :=
      commonCloseAccount_eq_ok hclosed
    obtain rfl := Except.ok.inj (hcloses.index.symm.trans hindex)
    obtain rfl := mem_unique hstored hb
    refine ⟨key, b', hauthority, hsigned, hb', ?_, fun x hx => (hothers x hx).trans (hkeeps x hx)⟩
    rw [hdata, hcut]
    exact overwrite_resize_uninitialized close.account.data
  cases state with
  | uninitialized =>
    obtain ⟨⟨recipient, r⟩, hrecipient, h⟩ := bind_eq_ok.1 h
    obtain ⟨recipient', hadd, h⟩ := bind_eq_ok.1 h
    obtain ⟨close', hlamports, h⟩ := bind_eq_ok.1 h
    cases h
    have hrecipients := borrow_eq_ok hrecipient
    have hne : r ≠ c := fun heq => hrecipients.notOut (heq ▸ mem_singleton_self _)
    refine changes_of_keeps hcloses.account (getElem?_store_store hstored hne)
      (.uninitializedClosed hstate ?_) fun x hx => ?_
    · obtain ⟨rfl, -⟩ := setLamports_eq_ok hlamports
      exact hcut
    · exact (hothers x hx).trans
        (keeps_store_store hrecipients.account (kept_checkedAddLamports hadd) hx)
  | buffer authority =>
    have h := rest_eq_ok h
    obtain ⟨key, b', -, -, hb', -, hkeeps⟩ := hcommon h
    exact changes_of_keeps hcloses.account hb' (.buffer authority hstate) hkeeps
  | programData slot authority =>
    have h := rest_eq_ok h
    obtain ⟨_, -, h⟩ := bind_eq_ok.1 h
    have h := rest_eq_ok h
    obtain ⟨key, b', hauthority, hsigned, hb', hdata, hkeeps⟩ := hcommon h
    exact changes_of_keeps hcloses.account hb'
      (.programData slot authority hstate (.closed key hauthority hsigned hdata)) hkeeps
  | program address => cases h

/-! ## Extension -/

lemma extendableAuthority_eq_ok (h : extendableAuthority clockSlot b = .ok authority) :
    ∃ slot, deserialize b.account.data = some (.programData slot authority) ∧ authority ≠ none := by
  obtain ⟨state, hstate, h⟩ := bind_eq_ok.1 h
  have hstate := loaderGetState_eq_ok.1 hstate
  cases state with
  | programData slot authority' =>
    have h := rest_eq_ok h
    obtain ⟨_, hne, h⟩ := bind_eq_ok.1 h
    cases h
    exact ⟨slot, hstate, ensure_eq_ok.1 hne⟩
  | uninitialized => cases h
  | buffer authority' => cases h
  | program address => cases h

lemma payForExtension_keeps {requiredPayment : Nat}
    (h : payForExtension cfg ctx tc programdataKey requiredPayment = .ok tc')
    (ha : tc.accounts[x]? = some a) (hdata : a.data ≠ []) :
    Keeps x tc tc' := by
  unfold payForExtension at h
  split at h
  · obtain ⟨_, -, h⟩ := bind_eq_ok.1 h
    exact invoke_transfer_keeps ha hdata h
  · rw [Except.ok.inj h]
    exact refl x tc'

lemma extended_data (clockSlot : Slot) (additionalBytes : Nat)
    (hstate : deserialize data = some (.programData slot authority))
    (hauthority : authority ≠ none) :
    let grown := overwrite (resize data (data.length + additionalBytes)) 0
      (serialize (.programData clockSlot authority))
    grown.drop sizeOfProgramdataMetadata =
        data.drop sizeOfProgramdataMetadata ++ List.replicate additionalBytes 0 ∧
      deserialize grown = some (.programData (clockSlot % 256 ^ 8) authority) := by
  obtain ⟨-, hkey, hlength⟩ := deserialize_eq_programData hstate
  have hlength := hlength hauthority
  have hserialize := length_serialize_programData_le clockSlot authority
  have hresize : resize data (data.length + additionalBytes) =
      data ++ List.replicate additionalBytes 0 := by
    rw [resize_of_le (Nat.le_add_right _ _), Nat.add_sub_cancel_left]
  constructor
  · rw [drop_overwrite, hresize, drop_append_of_le_length hlength]
    · rw [length_resize, Nat.zero_add]
      exact hserialize.trans (hlength.trans (Nat.le_add_right _ _))
    · rwa [Nat.zero_add]
  · rw [overwrite_zero, deserialize_programData_append, hkey]

lemma growProgramdata_eq_ok {newLen : Nat}
    (h : growProgramdata cfg clockSlot ctx tc newLen authority = .ok tc') :
    ∃ (b : BorrowedAccount Bytes) (p : Nat) (b' : Account Bytes), Borrows ctx tc [] 0 b p ∧
      tc'.accounts[p]? = some b' ∧
      b'.data = overwrite (resize b.account.data newLen) 0
        (serialize (.programData clockSlot authority)) ∧
      ∀ x, p ≠ x → Keeps x tc tc' := by
  obtain ⟨⟨b, p⟩, hborrow, h⟩ := bind_eq_ok.1 h
  obtain ⟨⟨b₁, delta⟩, hresized, h⟩ := bind_eq_ok.1 h
  have h := rest_eq_ok h
  have h := rest_eq_ok h
  obtain ⟨b₂, hset, h⟩ := bind_eq_ok.1 h
  cases h
  have hborrows := borrow_eq_ok hborrow
  refine ⟨b, p, b₂.account, hborrows, getElem?_store_self hborrows.account b₂, ?_, fun x hx => ?_⟩
  · obtain rfl := setDataLength_eq_ok hresized
    obtain ⟨-, rfl⟩ := loaderSetState_eq_ok hset
    rfl
  · exact storeResized_of_ne hx (b₂, delta)

lemma extendProgram_changes {additionalBytes : Nat}
    (h : extendProgram cfg clockSlot ctx tc additionalBytes = .ok tc') :
    Changes cfg clockSlot ctx tc tc' (.extendProgram additionalBytes) := by
  have h := rest_eq_ok h
  obtain ⟨_, -, h⟩ := bind_eq_ok.1 h
  obtain ⟨⟨b, p⟩, hborrow, h⟩ := bind_eq_ok.1 h
  obtain ⟨_, -, h⟩ := bind_eq_ok.1 h
  have h := rest_eq_ok h
  have h := rest_eq_ok h
  have h := rest_eq_ok h
  obtain ⟨_, hpermitted, h⟩ := bind_eq_ok.1 h
  obtain ⟨authority, hauthority, h⟩ := bind_eq_ok.1 h
  obtain ⟨tc₁, hpaid, h⟩ := bind_eq_ok.1 h
  obtain ⟨slot, hstate, hne⟩ := extendableAuthority_eq_ok hauthority
  obtain ⟨b₁, p₁, b', hborrows₁, hb', hdata, hothers⟩ := growProgramdata_eq_ok h
  have hborrows := borrow_eq_ok hborrow
  obtain rfl := hborrows.index_unique hborrows₁
  have hlen : saturatingAddU64 b.account.data.length additionalBytes =
      b.account.data.length + additionalBytes := by
    have hle := ensure_eq_ok.1 hpermitted
    unfold saturatingAddU64 maxPermittedDataLength u64Max at *
    omega
  intro x a a' ha ha'
  by_cases hnil : a.data = []
  · exact .withoutData hnil
  have hpaid := payForExtension_keeps hpaid ha hnil
  by_cases hx : p = x
  · subst hx
    obtain rfl := mem_unique hborrows.account ha
    obtain rfl := mem_unique hb' ha'
    obtain ⟨a₁, ha₁, hkept⟩ := hpaid.kept _ ha
    rw [← mem_unique ha₁ hborrows₁.account, hkept.1, hlen] at hdata
    obtain ⟨hbytes, hstate'⟩ := extended_data clockSlot additionalBytes hstate hne
    refine .programData slot authority hstate (.extended additionalBytes hne ?_ ?_)
    · rw [programBytes, hdata]
      exact hbytes
    · rw [hdata]
      exact hstate'
  · exact (hpaid.trans (hothers x hx)).change ha ha'

/-! ## Upgrade -/

lemma checkBuffer_eq_ok {authorityIndex bufferIndex : Nat} {buffer : BorrowedAccount Bytes}
    (h : checkBuffer ctx tc index authorityKey authorityIndex = .ok (buffer, bufferIndex)) :
    Borrows ctx tc [] index buffer bufferIndex ∧
      ∃ authority, deserialize buffer.account.data = some (.buffer authority) := by
  obtain ⟨⟨b, i⟩, hborrow, h⟩ := bind_eq_ok.1 h
  obtain ⟨state, hstate, h⟩ := bind_eq_ok.1 h
  obtain ⟨_, hcheck, h⟩ := bind_eq_ok.1 h
  have h := rest_eq_ok h
  cases h
  refine ⟨borrow_eq_ok hborrow, ?_⟩
  cases state with
  | buffer authority => exact ⟨authority, loaderGetState_eq_ok.1 hstate⟩
  | uninitialized => cases hcheck
  | program address => cases hcheck
  | programData slot authority => cases hcheck

lemma verifyBuffer_eq_ok (h : verifyBuffer cfg ctx tc index = .ok ()) :
    ∃ (b : BorrowedAccount Bytes) (i : Nat), Borrows ctx tc [] index b i ∧
      cfg.verify (b.account.data.drop sizeOfBufferMetadata) = .ok () := by
  obtain ⟨⟨b, i⟩, hborrow, h⟩ := bind_eq_ok.1 h
  obtain ⟨contents, hcontents, h⟩ := bind_eq_ok.1 h
  rw [bufferContents_eq_ok hcontents] at h
  exact ⟨b, i, borrow_eq_ok hborrow, h⟩

lemma checkProgramdata_eq_ok (hkey : ctx.getKeyOfInstructionAccount tc 6 = .ok authorityKey)
    (h : checkProgramdata clockSlot ctx tc authorityKey lamports length = .ok required) :
    ∃ (b : BorrowedAccount Bytes) (p : Nat) (slot : Slot), Borrows ctx tc [] 0 b p ∧
      deserialize b.account.data = some (.programData slot (some authorityKey)) ∧
      SignedBy ctx tc authorityKey := by
  obtain ⟨⟨b, p⟩, hborrow, h⟩ := bind_eq_ok.1 h
  have h := rest_eq_ok h
  have h := rest_eq_ok h
  obtain ⟨state, hstate, h⟩ := bind_eq_ok.1 h
  obtain ⟨_, hcheck, -⟩ := bind_eq_ok.1 h
  cases state with
  | programData slot authority =>
    have hcheck := rest_eq_ok hcheck
    have hcheck := rest_eq_ok hcheck
    obtain ⟨_, hauthority, hcheck⟩ := bind_eq_ok.1 hcheck
    obtain ⟨isSigner, hsigner, hcheck⟩ := bind_eq_ok.1 hcheck
    rw [ensure_eq_ok.1 hcheck] at hsigner
    rw [ensure_eq_ok.1 hauthority] at hstate
    exact ⟨b, p, slot, borrow_eq_ok hborrow, loaderGetState_eq_ok.1 hstate,
      signedBy_of_position hkey hsigner⟩
  | uninitialized => cases hcheck
  | buffer authority => cases hcheck
  | program address => cases hcheck

/-- Program data that was upgraded: the metadata, the new program, and zeros to the end. -/
def upgradedData (data : Bytes) (state : UpgradeableLoaderState) (contents : Bytes) : Bytes :=
  let data := overwrite data 0 state.serialize
  let data := overwrite data sizeOfProgramdataMetadata contents
  let rest := sizeOfProgramdataMetadata + contents.length
  overwrite data rest (List.replicate (data.length - rest) 0)

lemma upgradedData_spec (clockSlot : Slot) (hkey : authority.map (· % 256 ^ 32) = authority)
    (hfits : sizeOfProgramdataMetadata + contents.length ≤ data.length) :
    (upgradedData data (.programData clockSlot authority) contents).drop sizeOfProgramdataMetadata =
        contents ++ List.replicate
          ((data.drop sizeOfProgramdataMetadata).length - contents.length) 0 ∧
      deserialize (upgradedData data (.programData clockSlot authority) contents) =
        some (.programData (clockSlot % 256 ^ 8) authority) := by
  have hserialize := length_serialize_programData_le clockSlot authority
  generalize hserialized : serialize (.programData clockSlot authority) = serialized at hserialize
  have hlength₁ : (overwrite data 0 serialized).length = data.length :=
    length_overwrite (by omega)
  have hlength₂ : (overwrite (overwrite data 0 serialized) sizeOfProgramdataMetadata
      contents).length = data.length := by
    rw [length_overwrite (by omega), hlength₁]
  have hdata : upgradedData data (.programData clockSlot authority) contents =
      (overwrite (overwrite data 0 serialized) sizeOfProgramdataMetadata contents).take
        (sizeOfProgramdataMetadata + contents.length) ++
        List.replicate (data.length - (sizeOfProgramdataMetadata + contents.length)) 0 := by
    rw [upgradedData, hserialized, hlength₂, overwrite_to_end]
    rw [length_replicate, hlength₂]
    omega
  have hfront : ((overwrite (overwrite data 0 serialized) sizeOfProgramdataMetadata contents).take
      (sizeOfProgramdataMetadata + contents.length)).length =
      sizeOfProgramdataMetadata + contents.length :=
    length_take_of_le (by omega)
  constructor
  · rw [hdata, drop_append_of_le_length (by omega), drop_take, Nat.add_sub_cancel_left,
      drop_overwrite_self (by omega), take_left, length_drop, Nat.sub_sub]
  · rw [← hkey]
    apply deserialize_of_take
    rw [hkey, hserialized, hdata, take_append_of_le_length (by omega), take_take,
      min_eq_left (by omega), take_overwrite hserialize (by omega), overwrite_zero, take_left]

/-- The three accounts of an upgrade are different ones. The program data is replaced, and of the
others only the buffer loses anything. -/
lemma replaceProgram_eq_ok
    (h : replaceProgram clockSlot ctx tc authorityKey lamports length required = .ok tc') :
    ∃ (programdata buffer : BorrowedAccount Bytes) (p i : Nat) (b' : Account Bytes),
      Borrows ctx tc [] 0 programdata p ∧ Borrows ctx tc [p] 2 buffer i ∧
      sizeOfProgramdataMetadata + (buffer.account.data.drop sizeOfBufferMetadata).length ≤
        programdata.account.data.length ∧
      tc'.accounts[p]? = some b' ∧
      b'.data = upgradedData programdata.account.data (.programData clockSlot (some authorityKey))
        (buffer.account.data.drop sizeOfBufferMetadata) ∧
      ∀ x, p ≠ x → i ≠ x → Keeps x tc tc' := by
  obtain ⟨⟨programdata, p⟩, hprogramdata, h⟩ := bind_eq_ok.1 h
  obtain ⟨programdata₁, hset, h⟩ := bind_eq_ok.1 h
  obtain ⟨⟨buffer, i⟩, hbuffer, h⟩ := bind_eq_ok.1 h
  obtain ⟨contents, hcontents, h⟩ := bind_eq_ok.1 h
  obtain ⟨programdata₂, hcopied, h⟩ := bind_eq_ok.1 h
  obtain ⟨programdata₃, hzeroed, h⟩ := bind_eq_ok.1 h
  obtain ⟨⟨spill, s⟩, hspill, h⟩ := bind_eq_ok.1 h
  obtain ⟨spill', hadd, h⟩ := bind_eq_ok.1 h
  obtain ⟨buffer₁, -, h⟩ := bind_eq_ok.1 h
  obtain ⟨programdata₄, hfunded, h⟩ := bind_eq_ok.1 h
  obtain ⟨buffer₂, -, h⟩ := bind_eq_ok.1 h
  cases h
  have hprogramdatas := borrow_eq_ok hprogramdata
  have hbuffers := borrow_eq_ok hbuffer
  have hspills := borrow_eq_ok hspill
  have hip : i ≠ p := fun heq => hbuffers.notOut (heq ▸ mem_singleton_self _)
  have hsp : s ≠ p := fun heq => hspills.notOut (heq ▸ mem_cons_self)
  obtain rfl := bufferContents_eq_ok hcontents
  obtain ⟨hsize, rfl⟩ := loaderSetState_eq_ok hset
  obtain ⟨hlength, hfits, rfl⟩ := copyFromSlice_eq_ok hcopied
  obtain ⟨-, -, rfl⟩ := copyFromSlice_eq_ok hzeroed
  obtain ⟨rfl, -⟩ := setLamports_eq_ok hfunded
  subst hlength
  have hstored : ∀ b, (((tc.store p b).store s spill').storeResized i buffer₂).accounts[p]? =
      some b.account := by
    intro b
    change (((tc.accounts.set p b.account).set s _).set i _)[p]? = _
    rw [getElem?_set_ne hip, getElem?_set_ne hsp]
    exact getElem?_store_self hprogramdatas.account b
  refine ⟨programdata, buffer, p, i, _, hprogramdatas, hbuffers, ?_, hstored _, rfl,
    fun x hpx hix => ?_⟩
  · refine hfits.trans_eq ?_
    exact length_overwrite (by rwa [Nat.zero_add])
  · have hspill_account : ∀ b, (tc.store p b).accounts[s]? = some spill.account := by
      intro b
      rw [TransactionContext.store, getElem?_set_ne hsp.symm]
      exact hspills.account
    exact ((store_of_ne hpx _).trans
      (store_of_kept (hspill_account _) (kept_checkedAddLamports hadd))).trans
      (storeResized_of_ne hix buffer₂)

lemma upgrade_changes (h : upgrade cfg clockSlot ctx tc = .ok tc') :
    Changes cfg clockSlot ctx tc tc' .upgrade := by
  have h := rest_eq_ok h
  obtain ⟨_, -, h⟩ := bind_eq_ok.1 h
  have h := rest_eq_ok h
  have h := rest_eq_ok h
  have h := rest_eq_ok h
  obtain ⟨authorityKey, hkey, h⟩ := bind_eq_ok.1 h
  obtain ⟨_, -, h⟩ := bind_eq_ok.1 h
  have h := rest_eq_ok h
  obtain ⟨⟨buffer, i⟩, hbuffer, h⟩ := bind_eq_ok.1 h
  obtain ⟨required, hprogramdata, h⟩ := bind_eq_ok.1 h
  obtain ⟨_, hverify, h⟩ := bind_eq_ok.1 h
  obtain ⟨hbuffers, bufferAuthority, hbuffer_state⟩ := checkBuffer_eq_ok hbuffer
  obtain ⟨programdata, p, slot, hprogramdatas, hstate, hsigned⟩ :=
    checkProgramdata_eq_ok hkey hprogramdata
  obtain ⟨buffer₁, i₁, hbuffers₁, hverified⟩ := verifyBuffer_eq_ok hverify
  obtain ⟨programdata₂, buffer₂, p₂, i₂, b', hprogramdatas₂, hbuffers₂, hfits, hb', hdata, hothers⟩ :=
    replaceProgram_eq_ok h
  -- the borrows of one account in the course of the instruction are of the same one
  obtain rfl := hbuffers.index_unique hbuffers₁
  obtain rfl := hbuffers.index_unique hbuffers₂
  obtain rfl := hprogramdatas.index_unique hprogramdatas₂
  have hbuffer_eq := mem_unique hbuffers₁.account hbuffers.account
  have hbuffer_eq₂ := mem_unique hbuffers₂.account hbuffers.account
  have hprogramdata_eq := mem_unique hprogramdatas₂.account hprogramdatas.account
  rw [hbuffer_eq] at hverified
  rw [hbuffer_eq₂, hprogramdata_eq] at hdata hfits
  intro x a a' ha ha'
  by_cases hi : i = x
  · subst hi
    obtain rfl := mem_unique hbuffers.account ha
    exact .buffer bufferAuthority hbuffer_state
  by_cases hp : p = x
  · subst hp
    obtain rfl := mem_unique hprogramdatas.account ha
    obtain rfl := mem_unique hb' ha'
    obtain ⟨hbytes, hstate'⟩ :=
      upgradedData_spec clockSlot (deserialize_eq_programData hstate).2.1 hfits
    refine .programData slot _ hstate (.upgraded authorityKey
      (buffer.account.data.drop sizeOfBufferMetadata) rfl hsigned
      ⟨hverified, buffer.account, mem_of_getElem? hbuffers.account,
        ⟨bufferAuthority, hbuffer_state⟩, rfl⟩ ?_ ?_ ?_)
    · simp only [programBytes, length_drop] at hfits ⊢
      omega
    · rw [programBytes, hdata]
      exact hbytes
    · rw [hdata]
      exact hstate'
  · exact (hothers x hp hi).change ha ha'

/-! ## Deployment -/

lemma checkNewProgram_eq_ok (h : checkNewProgram ctx tc = .ok key) :
    ∃ (b : BorrowedAccount Bytes) (i : Nat), Borrows ctx tc [] 2 b i ∧
      deserialize b.account.data = some .uninitialized ∧
      sizeOfProgram ≤ b.account.data.length := by
  obtain ⟨⟨b, i⟩, hborrow, h⟩ := bind_eq_ok.1 h
  obtain ⟨state, hstate, h⟩ := bind_eq_ok.1 h
  obtain ⟨_, hfresh, h⟩ := bind_eq_ok.1 h
  obtain ⟨_, hlength, -⟩ := bind_eq_ok.1 h
  rw [ensure_eq_ok.1 hfresh] at hstate
  exact ⟨b, i, borrow_eq_ok hborrow, loaderGetState_eq_ok.1 hstate, ensure_eq_ok.1 hlength⟩

lemma drainBuffer_keeps (h : drainBuffer ctx tc = .ok tc')
    (hx : ctx.getIndexOfInstructionAccountInTransaction 3 ≠ .ok x) : Keeps x tc tc' := by
  obtain ⟨⟨buffer, i⟩, hbuffer, h⟩ := bind_eq_ok.1 h
  obtain ⟨⟨payer, j⟩, hpayer, h⟩ := bind_eq_ok.1 h
  obtain ⟨payer', hadd, h⟩ := bind_eq_ok.1 h
  obtain ⟨buffer', -, h⟩ := bind_eq_ok.1 h
  cases h
  have hne : i ≠ x := fun heq => hx (heq ▸ (borrow_eq_ok hbuffer).index)
  exact keeps_store_store (borrow_eq_ok hpayer).account (kept_checkedAddLamports hadd) hne

lemma createProgramdata_keeps (hdistinct : tc.accountKeys.Nodup)
    (hfits : tc.accountKeys.length ≤ maxIndexOfAccount) {payerKey bufferKey programId : Pubkey}
    (h : createProgramdata cfg tc payerKey programdataKey bufferKey programId length = .ok tc')
    (ha : tc.accounts[x]? = some a) (hdata : a.data ≠ []) :
    Keeps x tc tc' ∧ tc.accountKeys[x]? ≠ some programdataKey := by
  refine invoke_createAccount_keeps ha hdata hdistinct hfits ?_ h
  intro accountMeta hmeta
  rw [← Option.some.inj hmeta]

lemma recordProgram_keeps (h : recordProgram clockSlot ctx tc authorityKey length = .ok tc')
    (hx : ctx.getIndexOfInstructionAccountInTransaction 3 ≠ .ok x)
    (hx' : ctx.getIndexOfInstructionAccountInTransaction 1 ≠ .ok x) : Keeps x tc tc' := by
  obtain ⟨⟨programdata, p⟩, hprogramdata, h⟩ := bind_eq_ok.1 h
  obtain ⟨programdata₁, -, h⟩ := bind_eq_ok.1 h
  obtain ⟨⟨buffer, i⟩, hbuffer, h⟩ := bind_eq_ok.1 h
  obtain ⟨contents, -, h⟩ := bind_eq_ok.1 h
  obtain ⟨programdata₂, -, h⟩ := bind_eq_ok.1 h
  obtain ⟨buffer', -, h⟩ := bind_eq_ok.1 h
  cases h
  have hi : i ≠ x := fun heq => hx (heq ▸ (borrow_eq_ok hbuffer).index)
  have hp : p ≠ x := fun heq => hx' (heq ▸ (borrow_eq_ok hprogramdata).index)
  exact (store_of_ne hp programdata₂).trans (storeResized_of_ne hi buffer')

lemma finishProgram_keeps (h : finishProgram ctx tc programdataKey = .ok tc')
    (hx : ctx.getIndexOfInstructionAccountInTransaction 2 ≠ .ok x) : Keeps x tc tc' := by
  obtain ⟨⟨program, i⟩, hprogram, h⟩ := bind_eq_ok.1 h
  obtain ⟨program₁, -, h⟩ := bind_eq_ok.1 h
  obtain ⟨program₂, -, h⟩ := bind_eq_ok.1 h
  cases h
  have hi : i ≠ x := fun heq => hx (heq ▸ (borrow_eq_ok hprogram).index)
  exact store_of_ne hi program₂

/-- A deployment changes the new program, which was not initialized, the buffer and accounts
without data; every other account is kept. -/
lemma deployWithMaxDataLen_changes (hdistinct : tc.accountKeys.Nodup)
    (hfits : tc.accountKeys.length ≤ maxIndexOfAccount) {maxDataLen : Nat}
    (h : deployWithMaxDataLen cfg clockSlot ctx tc maxDataLen = .ok tc') :
    Changes cfg clockSlot ctx tc tc' instruction := by
  have h := rest_eq_ok h
  obtain ⟨payerKey, -, h⟩ := bind_eq_ok.1 h
  obtain ⟨programdataKey, hprogramdataKey, h⟩ := bind_eq_ok.1 h
  have h := rest_eq_ok h
  have h := rest_eq_ok h
  have h := rest_eq_ok h
  obtain ⟨authorityKey, -, h⟩ := bind_eq_ok.1 h
  obtain ⟨programId, -, h⟩ := bind_eq_ok.1 h
  obtain ⟨newProgramId, hprogram, h⟩ := bind_eq_ok.1 h
  obtain ⟨⟨buffer, i⟩, hbuffer, h⟩ := bind_eq_ok.1 h
  obtain ⟨bufferKey, -, h⟩ := bind_eq_ok.1 h
  have h := rest_eq_ok h
  have h := rest_eq_ok h
  have h := rest_eq_ok h
  obtain ⟨tc₁, hdrained, h⟩ := bind_eq_ok.1 h
  obtain ⟨tc₂, hcreated, h⟩ := bind_eq_ok.1 h
  have h := rest_eq_ok h
  obtain ⟨tc₃, hrecorded, hfinished⟩ := bind_eq_ok.1 h
  obtain ⟨program, j, hprograms, hfresh, hlength⟩ := checkNewProgram_eq_ok hprogram
  obtain ⟨hbuffers, bufferAuthority, hbuffer_state⟩ := checkBuffer_eq_ok hbuffer
  obtain ⟨p, hp, hpkey⟩ := getKeyOfInstructionAccount_eq_ok hprogramdataKey
  intro x a a' ha ha'
  by_cases hnil : a.data = []
  · exact .withoutData hnil
  by_cases hbuffer_x : ctx.getIndexOfInstructionAccountInTransaction 3 = .ok x
  · obtain rfl := Except.ok.inj (hbuffers.index.symm.trans hbuffer_x)
    obtain rfl := mem_unique hbuffers.account ha
    exact .buffer bufferAuthority hbuffer_state
  by_cases hprogram_x : ctx.getIndexOfInstructionAccountInTransaction 2 = .ok x
  · obtain rfl := Except.ok.inj (hprograms.index.symm.trans hprogram_x)
    obtain rfl := mem_unique hprograms.account ha
    exact .initialized hfresh hlength
  have hkeeps₁ := drainBuffer_keeps hdrained hbuffer_x
  obtain ⟨a₁, ha₁, hkept₁⟩ := hkeeps₁.kept a ha
  rw [← hkeeps₁.keys] at hdistinct hfits hpkey
  obtain ⟨hkeeps₂, hother⟩ :=
    createProgramdata_keeps hdistinct hfits hcreated ha₁ (hkept₁.1 ▸ hnil)
  -- the program data is the account that was created, so it is another one
  have hprogramdata_x : ctx.getIndexOfInstructionAccountInTransaction 1 ≠ .ok x := by
    intro hx
    obtain rfl := Except.ok.inj (hp.symm.trans hx)
    exact hother hpkey
  have hkeeps₃ := recordProgram_keeps hrecorded hbuffer_x hprogramdata_x
  have hkeeps₄ := finishProgram_keeps hfinished hprogram_x
  exact (((hkeeps₁.trans hkeeps₂).trans hkeeps₃).trans hkeeps₄).change ha ha'

lemma processInstruction_changes (hcurrent : tc.getCurrentInstructionContext = .ok ctx)
    (hdistinct : tc.accountKeys.Nodup) (hfits : tc.accountKeys.length ≤ maxIndexOfAccount)
    (h : processInstruction cfg clockSlot tc instruction = .ok tc') :
    Changes cfg clockSlot ctx tc tc' instruction := by
  obtain ⟨ctx', hctx', h⟩ := bind_eq_ok.1 h
  obtain rfl := Except.ok.inj (hctx'.symm.trans hcurrent)
  have h := rest_eq_ok h
  cases instruction with
  | initializeBuffer => exact initializeBuffer_changes h
  | write offset bytes => exact write_changes h
  | deployWithMaxDataLen maxDataLen => exact deployWithMaxDataLen_changes hdistinct hfits h
  | upgrade => exact upgrade_changes h
  | setAuthority => exact setAuthority_changes h
  | setAuthorityChecked => exact setAuthorityChecked_changes h
  | close => exact close_changes h
  | extendProgram additionalBytes => exact extendProgram_changes h

end Nuah.Proofs
