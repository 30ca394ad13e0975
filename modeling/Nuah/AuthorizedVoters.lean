import Nuah.VoteState
import Nuah.Lib.KeyedLists

/-!
# Authorized voters

Who may vote for a vote account in an epoch (`sdk/program/src/vote/authorized_voters.rs`, and
`set_new_authorized_voter` of `sdk/program/src/vote/state/mod.rs`): a map from the epochs in which
the voter changes, and a ring of the voters before.
-/

namespace Nuah

namespace CircBuf

variable {ι : Type}

def append (c : CircBuf ι) (item : ι) : CircBuf ι :=
  let idx := (c.idx + 1) % maxItems
  ⟨c.buf.set idx item, idx, false⟩

def last (c : CircBuf ι) : Option ι := if c.isEmpty then none else c.buf[c.idx]?

end CircBuf

/-- The pairs of the `BTreeMap` in key order. -/
abbrev AuthorizedVoters := List (Epoch × Pubkey)

namespace AuthorizedVoters

variable (voters : AuthorizedVoters)

def contains (epoch : Epoch) : Bool := (voters.find? (·.1 = epoch)).isSome

/-- The voter of the epoch, and whether there is an entry for it. -/
def getOrCalculateAuthorizedVoterForEpoch (epoch : Epoch) : Option (Pubkey × Bool) :=
  match voters.find? (·.1 = epoch) with
  | none => (voters.filter (·.1 < epoch)).getLast?.map fun (_, pubkey) => (pubkey, false)
  | some (_, pubkey) => some (pubkey, true)

def getAuthorizedVoter (epoch : Epoch) : Option Pubkey :=
  (voters.getOrCalculateAuthorizedVoterForEpoch epoch).map Prod.fst

def getAndCacheAuthorizedVoterForEpoch (epoch : Epoch) : Option (Pubkey × AuthorizedVoters) :=
  (voters.getOrCalculateAuthorizedVoterForEpoch epoch).map fun (pubkey, existed) =>
    (pubkey, if existed then voters else KeyedLists.insert epoch pubkey voters)

/-- Panics if no voter would be left. -/
def purgeAuthorizedVoters (currentEpoch : Epoch) : Option AuthorizedVoters :=
  let left := voters.filter (!·.1 < currentEpoch)
  if left.isEmpty then none else some left

end AuthorizedVoters

/-- `ε` are the errors of the check of the caller. -/
inductive SetVoterError (ε : Type) where
  | invalidAccountData
  | tooSoonToReauthorize
  | verify (e : ε)
deriving Repr, DecidableEq

namespace VoteState

variable {ε : Type}

/-- The state after a call is returned with its result, as a call that fails may change it. -/
def getAndUpdateAuthorizedVoter (vs : VoteState) (currentEpoch : Epoch) :
    Except (Fault (SetVoterError ε)) Pubkey × VoteState :=
  match AuthorizedVoters.getAndCacheAuthorizedVoterForEpoch vs.authorizedVoters currentEpoch with
  | none => (.error (.err .invalidAccountData), vs)
  | some (pubkey, voters) =>
    match AuthorizedVoters.purgeAuthorizedVoters voters currentEpoch with
    | none => (.error .panic, { vs with authorizedVoters := [] })
    | some voters => (.ok pubkey, { vs with authorizedVoters := voters })

/-- The part of `set_new_authorized_voter` after the checks of the current voter. -/
def scheduleVoter (vs : VoteState) (authorizedPubkey : Pubkey) (targetEpoch : Epoch) :
    Except (Fault (SetVoterError ε)) Unit × VoteState :=
  if AuthorizedVoters.contains vs.authorizedVoters targetEpoch then
    (.error (.err .tooSoonToReauthorize), vs)
  else match vs.authorizedVoters.getLast? with
    | none => (.error (.err .invalidAccountData), vs)
    | some (latestEpoch, latestAuthorizedPubkey) =>
      let voters := KeyedLists.insert targetEpoch authorizedPubkey vs.authorizedVoters
      if latestAuthorizedPubkey ≠ authorizedPubkey then
        let epochOfLastAuthorizedSwitch := (vs.priorVoters.last.map (·.2.2)).getD 0
        if latestEpoch < targetEpoch then
          (.ok (), { vs with
            priorVoters := vs.priorVoters.append
              (latestAuthorizedPubkey, epochOfLastAuthorizedSwitch, targetEpoch)
            authorizedVoters := voters })
        else (.error .panic, vs)
      else (.ok (), { vs with authorizedVoters := voters })

def setNewAuthorizedVoter (vs : VoteState) (authorizedPubkey : Pubkey)
    (currentEpoch targetEpoch : Epoch) (verify : Pubkey → Except ε Unit) :
    Except (Fault (SetVoterError ε)) Unit × VoteState :=
  match vs.getAndUpdateAuthorizedVoter currentEpoch with
  | (.error e, vs) => (.error e, vs)
  | (.ok epochAuthorizedVoter, vs) =>
    match verify epochAuthorizedVoter with
    | .error e => (.error (.err (.verify e)), vs)
    | .ok () => vs.scheduleVoter authorizedPubkey targetEpoch

end VoteState

end Nuah
