import DurableMessaging.Deployment

/-!
# Publishing rows

A row is published in the same way by whoever gets to it: its topology is declared, then the
message is published with the row's id as correlation, and a settler gets the confirm.
-/

namespace DurableMessaging

/-- The message that a row stands for. -/
def Row.message (row : Row) : OutboundMessage where
  exchange := row.exchange
  routingKey := row.routingKey
  messageId := row.messageId
  payload := row.payload.toUTF8
  correlation := some row.id

namespace Gateway

variable {ρ : Type}

def publishRow (g : Gateway ρ) (settler : Nat) (row : Row) (d : Deployment ρ) :
    Reply BrokerError Unit × Deployment ρ :=
  match g.declare row.topology d with
  | (.returned (), d) => g.publish row.message (.settle settler row.id) d
  | (reply, d) => (reply, d)

/-- Publishes a row and tells whether that went well. -/
def tryPublishRow (g : Gateway ρ) (settler : Nat) (row : Row) (d : Deployment ρ) :
    Reply Empty Bool × Deployment ρ :=
  match g.publishRow settler row d with
  | (.returned (), d) => (.returned true, d)
  | (.failed _, d) => (.returned false, d)
  | (.crashed, d) => (.crashed, d)

end Gateway

/-- A row to be published after its commit, and the settler that gets the confirm. -/
structure Announcement where
  settler : Nat
  row : Row
  deriving DecidableEq, Repr

/-- Publishes the row. Only a crash counts as a failure: a row that could not be published stays
pending. -/
def Announcement.perform {ρ : Type} (g : Gateway ρ) (a : Announcement) (d : Deployment ρ) :
    Completion × Deployment ρ :=
  match g.publishRow a.settler a.row d with
  | (.crashed, d) => (.crashed, d)
  | (_, d) => (.completed, d)

end DurableMessaging
