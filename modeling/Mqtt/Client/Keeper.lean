import Mqtt.Client.Basic

/-! The loop that breaks a silence of a whole period. -/
namespace Mqtt.Client

def toKeeper (c : Client) (keeper : Keeper) : Client :=
  c.onConnection fun k => { k with keeper }

/-- The fate of a PINGREQ; its answer has a whole period. -/
def keeperSent (c : Client) (outcome : Except ClientError Unit) : Client :=
  match c.connection.keeper, outcome with
  | .sending period, .ok _ => c.toKeeper (.awaiting period (c.now + period))
  | .sending _, .error e => c.toKeeper (.failing e)
  | _, _ => c

def ping (c : Client) (period : Nat) : Client :=
  let c := c.onConnection fun k => { k with pong := .awaited, keeper := .sending period }
  match c.post .keeper .pingReq with
  | .ok c => c
  | .error e => c.keeperSent (.error e)

def runKeeper (c : Client) : Option Client :=
  let k := c.connection
  match k.keeper with
  | .resting period => some (c.toKeeper (.sleeping period (k.lastSent + period)))
  | .sleeping period due => if due ≤ c.now then some (c.toKeeper (.checking period)) else none
  | .checking period =>
    if c.now < k.lastSent + period then some (c.toKeeper (.resting period))
    else some (c.ping period)
  | .sending _ =>
    if k.closing then some ((c.withdraw .keeper).keeperSent (.error .tooLate)) else none
  | .awaiting period deadline =>
    match k.pong with
    | .answered _ =>
      some (c.onConnection fun k => { k with pong := .idle, keeper := .resting period })
    | .abandoned =>
      some (c.toKeeper (.failing (.lost "connection closed while waiting for PINGRESP")))
    | _ =>
      if deadline ≤ c.now then some (c.toKeeper (.failing (.timedOut "PINGRESP" period)))
      else none
  | .failing _ => some (c.beginClose.toKeeper .stopped)
  | .stopped => none

/-- Stops where the loop waits, once the connection is to be taken down. -/
def breakKeeper (c : Client) : Option Client :=
  if !c.connection.closing then none
  else
    match c.connection.keeper with
    | .sleeping _ _ | .awaiting _ _ => some (c.toKeeper .stopped)
    | .sending _ => some ((c.withdraw .keeper).toKeeper .stopped)
    | _ => none

end Mqtt.Client
