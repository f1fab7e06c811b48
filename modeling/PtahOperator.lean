import PtahOperator.TargetLock.Runs
import PtahOperator.Migration.Runs.Dispatch
import PtahOperator.Migration.Runs.Realm
import PtahOperator.Runner.Binding
import PtahOperator.Journal.Bounds
import PtahOperator.Realm.Census
import PtahOperator.SourceContent.Digest
import PtahOperator.Logs.Reader
import PtahOperator.Runner.FooterScan
import PtahOperator.DataPlane.Composition
import PtahOperator.Runner.Grace
import PtahOperator.Cadence.Slots
import PtahOperator.Runner.Captured
import PtahOperator.PlanStore.Seal
import PtahOperator.Runner.StatementText
import PtahOperator.ResultCleanup.Copy
import PtahOperator.ResultConsumer.Reader
import PtahOperator.MigrationPlan.Approved
import PtahOperator.ResultDelivery.Protocol
