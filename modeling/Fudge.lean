import Fudge.Call.Basic
import Fudge.Call.Rules
import Fudge.Call.Run
import Fudge.Core.Chain
import Fudge.Core.Builder
import Fudge.Core.Commit
import Fudge.Core.Reference
import Fudge.Core.Atomicity
import Fudge.Core.Mutation
import Fudge.Core.Blocks
import Fudge.Core.Pending
import Fudge.Core.Tip
import Fudge.Core.Changes
import Fudge.Standalone.Builder
import Fudge.Standalone.Pending
import Fudge.Parachain.Builder
import Fudge.Parachain.Steps
import Fudge.Parachain.Pending
import Fudge.Relay.Storage
import Fudge.Relay.Builder
import Fudge.Relay.Steps
import Fudge.Relay.Table
import Fudge.Relay.Verdicts
import Fudge.Relay.Enactment
import Fudge.Relay.Heads
import Fudge.Relay.Reference
import Fudge.Relay.Asserts
import Fudge.Relay.Pending
import Fudge.Relay.Onboarding
import Fudge.Relay.Codes
import Fudge.System.Builders
import Fudge.System.Agreement
import Fudge.System.Approvals
import Fudge.System.Imports
import Fudge.Provider.State
import Fudge.System.Pending
import Fudge.System.Accepted
import Fudge.Companion.Builder
import Fudge.Companion.Usable
import Fudge.Companion.Round
import Fudge.Companion.Evolve
import Fudge.Companion.Resolution
import Fudge.Inherent.Timestamp
import Fudge.Inherent.Clock
import Fudge.Provider.Genesis
import Fudge.Inherent.Exact
import Fudge.Digest.Aura
import Fudge.Relay.Order
import Fudge.Relay.Past
import Fudge.Core.Announce
import Fudge.System.Events
import Fudge.System.Retry
import Fudge.Relay.Refusal
import Fudge.Core.Anchored
import Fudge.Relay.Numbers
import Fudge.Relay.Lag
import Fudge.Companion.Grammar
import Fudge.Companion.Exact
import Fudge.Companion.Expand
import Fudge.Call.Views
import Fudge.Companion.Views
import Fudge.Call.Walks
import Fudge.Core.Moves
import Fudge.Call.Script
import Fudge.System.Public
import Fudge.Companion.Script
import Fudge.Pipeline.Basic
import Fudge.System.Conservation
import Fudge.Overlay.Basic
import Fudge.Overlay.Layers
import Fudge.Provider.Externalities
import Fudge.Relay.Wait
import Fudge.Call.Journal
import Fudge.Core.History
import Fudge.System.History
import Fudge.Digest.Babe
import Fudge.Digest.Slots
import Fudge.Companion.Macro
import Fudge.Call.Blind
import Fudge.Core.Transitions
import Fudge.System.Transitions
import Fudge.Call.Mirror
import Fudge.Relay.Refinement
import Fudge.Pipeline.Runs
import Fudge.System.Refused
import Fudge.Codec.Basic
import Fudge.Core.States
import Fudge.System.Spared
import Fudge.Relay.Written
import Fudge.System.Offered
import Fudge.Companion.Heads
