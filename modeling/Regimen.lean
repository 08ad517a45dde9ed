import Regimen.Agent.Loading
import Regimen.Devices.Inventory
import Regimen.Query
import Regimen.Proofs.Accounts
import Regimen.Proofs.Buffering
import Regimen.Proofs.CadenceGrammar
import Regimen.Proofs.Continuation
import Regimen.Proofs.DescriptorStacks
import Regimen.Proofs.Descriptors
import Regimen.Proofs.DevicePlans
import Regimen.Proofs.ExecutionGrammar
import Regimen.Proofs.Failures
import Regimen.Proofs.FaultPlaces
import Regimen.Proofs.Interpolation
import Regimen.Proofs.KeyOrder
import Regimen.Proofs.Location
import Regimen.Proofs.NullFields
import Regimen.Proofs.OneWay
import Regimen.Proofs.OverfullBatches
import Regimen.Proofs.Questions
import Regimen.Proofs.Requests
import Regimen.Proofs.Resumption
import Regimen.Proofs.ScheduleForms
import Regimen.Proofs.Scopes
import Regimen.Proofs.SharedHandles
import Regimen.Proofs.SharedTally
import Regimen.Proofs.Stages
import Regimen.Proofs.TargetSync
import Regimen.Proofs.VisibleDevices
import Regimen.Proofs.Warnings
import Regimen.Proofs.WrappedSchedules
