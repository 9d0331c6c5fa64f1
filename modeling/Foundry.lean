import Foundry.Console.Style
import Foundry.Main
import Foundry.Proofs.Cache.Eviction
import Foundry.Proofs.Cache.History
import Foundry.Proofs.Http.Agreement
import Foundry.Proofs.Request.Admission
import Foundry.Proofs.Request.Payload
import Foundry.Proofs.Sentinel.LastMark
import Foundry.Proofs.Service.Detached
import Foundry.Proofs.Service.Samples
import Foundry.Proofs.Service.Trail
import Foundry.Proofs.Template.Holder
import Foundry.Proofs.Template.Layouts
import Foundry.Proofs.Template.OneBuild
import Foundry.Proofs.Template.Readiness
import Foundry.Proofs.Workspace.Abandonment
import Foundry.Proofs.Workspace.Artifacts
import Foundry.Proofs.Workspace.Slots
